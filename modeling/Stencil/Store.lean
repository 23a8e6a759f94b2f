import Stencil.Path
import Stencil.Value

/-!
The data store: a tree of values that is read and changed by paths.

Reading a key of a list reads its first item, and an index of a mapping is the
key with that number. Writing makes mappings on its way, but it never replaces a
list: an index past the end of a list, or a key of a list, is refused.
-/

namespace Stencil

/-! ## Reading -/

/-- The value one step below a value. -/
def Value.child? (v : Value) : Step → Option Value
  | .key name => v.getKey? name
  | .index i =>
    match v with
    | .list items => items[i]?
    | .mapping entries => Fields.get? (toString i) entries
    | .scalar _ => none

/-- A step reads the entry of a mapping under its text. -/
theorem Value.child?_mapping (entries : List (String × Value)) (step : Step) :
    (Value.mapping entries).child? step = Fields.get? step.text entries := by
  cases step <;> rfl

/-- The value at a path below a value. -/
def Value.get? (v : Value) : Path → Option Value
  | [] => some v
  | step :: path => (v.child? step).bind (·.get? path)

theorem Value.get?_append (v : Value) (front back : Path) :
    v.get? (front ++ back) = (v.get? front).bind (·.get? back) := by
  induction front generalizing v with
  | nil => rfl
  | cons step front ih =>
    rw [List.cons_append, get?, get?, Option.bind_assoc]
    exact congrArg (Option.bind _) (funext ih)

/-! ## Writing -/

/-- Why a step cannot be written through. -/
inductive StepError
  | indexOutOfRange (position length : Nat)
  | keyOfList (name : String)
  deriving DecidableEq

/-- What an attempt to write leaves behind: the value afterwards, and what
stopped it, if anything did. -/
structure Value.Attempt where
  value : Value
  refused : Option StepError

/-- Writes `new` at a path below a value. What is no list becomes a mapping on
the way, and a missing entry is made before the next step is taken. -/
def Value.assign (v : Value) (path : Path) (new : Value) : Value.Attempt :=
  match path, v with
  | [], _ => ⟨new, none⟩
  | .key name :: _, .list items => ⟨.list items, some (.keyOfList name)⟩
  | .index i :: path, .list items =>
    match items[i]? with
    | none => ⟨.list items, some (.indexOutOfRange i items.length)⟩
    | some item =>
      let below := item.assign path new
      ⟨.list (items.set i below.value), below.refused⟩
  | step :: path, v =>
    let child := (Fields.get? step.text v.entries).getD (.mapping [])
    let below := child.assign path new
    ⟨.mapping (Fields.insert step.text below.value v.entries), below.refused⟩

/-! ## Stores -/

structure Store where
  root : Value

/-- Why data is refused. -/
inductive DataError
  /-- The data of a store is not an object. -/
  | rootNotObject (kind : String)
  /-- An update is not an object. -/
  | updateNotObject (kind : String)
  /-- A value cannot be written at a dotted path. -/
  | notWritable (reason : StepError) (dotted : String)
  deriving DecidableEq

def DataError.message : DataError → String
  | rootNotObject kind => s!"Root data must be an object, got {kind}"
  | updateNotObject kind => s!"Update must be an object, got {kind}"
  | notWritable (.indexOutOfRange position length) dotted =>
    s!"Index {position} out of range for list of {length} in '{dotted}'"
  | notWritable (.keyOfList name) dotted => s!"Cannot set key '{name}' on a list in '{dotted}'"

namespace Store

def empty : Store := ⟨.mapping []⟩

/-- The store of a JSON object. -/
def ofJson : Json → Except DataError Store
  | .object members => .ok ⟨.ofJson (.object members)⟩
  | other => .error (.rootNotObject other.kindName)

def get? (s : Store) (p : Path) : Option Value := s.root.get? p

def getDotted? (s : Store) (dotted : String) : Option Value := s.get? (.parse dotted)

/-- Writes a value at a dotted path: the store afterwards, and whether the value
was written. -/
def set (s : Store) (dotted : String) (value : Value) : Store × Except DataError Unit :=
  let attempt := s.root.assign (.parse dotted) value
  (⟨attempt.value⟩,
    match attempt.refused with
    | none => .ok ()
    | some reason => .error (.notWritable reason dotted))

/-- Merges a JSON update into the store: the store afterwards, and whether the
update was an object. -/
def merge (s : Store) : Json → Store × Except DataError Unit
  | .object members => (⟨s.root.merge (.ofJson (.object members))⟩, .ok ())
  | other => (s, .error (.updateNotObject other.kindName))

end Store

end Stencil
