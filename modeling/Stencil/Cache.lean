import Stencil.SharedTemplate
import Stencil.Source

/-!
A cache of parsed templates by name. A template is parsed again only when its
text has changed, so a name whose text stays the same keeps its very template.
A text that is refused leaves the cache as it was.
-/

namespace Stencil

namespace Cache

/-- A cached template and the text it was parsed from. -/
structure Entry where
  raw : String
  shared : SharedTemplate

end Cache

structure Cache where
  /-- Whether templates must have matching sections. -/
  strict : Bool
  entries : List (String × Cache.Entry)
  /-- The serial number of the next template that is parsed. -/
  nextSerial : Nat

namespace Cache

def empty (strict : Bool) : Cache := ⟨strict, [], 0⟩

def size (c : Cache) : Nat := c.entries.length

/-- The template cached under a name. -/
def cached? (c : Cache) (name : String) : Option SharedTemplate :=
  (Fields.get? name c.entries).map (·.shared)

/-- Caches a newly parsed template. -/
def add (c : Cache) (name raw : String) (template : Template) : SharedTemplate × Cache :=
  let shared : SharedTemplate := ⟨c.nextSerial, template⟩
  (shared,
    { c with
      entries := Fields.insert name ⟨raw, shared⟩ c.entries
      nextSerial := c.nextSerial + 1 })

/-- The template of a text under a name: the one cached for the same text, or a
newly parsed one. -/
def insertRaw (c : Cache) (name raw : String) : Except Error SharedTemplate × Cache :=
  let parsed :=
    match Template.parseWith c.strict raw with
    | .error error => (.error (.parse error), c)
    | .ok template =>
      let (shared, c) := c.add name raw template
      (.ok shared, c)
  match Fields.get? name c.entries with
  | some entry => if entry.raw = raw then (.ok entry.shared, c) else parsed
  | none => parsed

/-- The template that a source has under a name now. -/
def get (c : Cache) (source : Source) (name : String) : Except Error SharedTemplate × Cache :=
  match source.load name with
  | .error error => (.error error, c)
  | .ok raw => c.insertRaw name raw

/-- The templates of the given names, up to the first that fails. -/
def getAll (c : Cache) (source : Source) :
    List String → Except Error (List (String × SharedTemplate)) × Cache
  | [] => (.ok [], c)
  | name :: names =>
    match c.get source name with
    | (.error error, c) => (.error error, c)
    | (.ok shared, c) =>
      let (others, c) := getAll c source names
      (others.map ((name, shared) :: ·), c)

/-- The templates of all names that a source lists. -/
def loadAll (c : Cache) (source : Source) :
    Except Error (List (String × SharedTemplate)) × Cache :=
  match source.list.get with
  | .error error => (.error error, c)
  | .ok names => c.getAll source names

/-- Forgets a name, and says whether it was cached. -/
def invalidate (c : Cache) (name : String) : Bool × Cache :=
  ((Fields.get? name c.entries).isSome, { c with entries := Fields.erase name c.entries })

end Cache

end Stencil
