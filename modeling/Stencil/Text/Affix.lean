/-!
Taking a known beginning or end off a text.
-/

namespace Stencil.Text

/-- What follows the beginning `start`, if the text begins so. -/
def dropPrefix? (start cs : List Char) : Option (List Char) :=
  if start.isPrefixOf cs then some (cs.drop start.length) else none

/-- What precedes the end `stop`, if the text ends so. -/
def dropSuffix? (stop cs : List Char) : Option (List Char) :=
  if stop.isSuffixOf cs then some (cs.take (cs.length - stop.length)) else none

theorem eq_append_of_dropPrefix? {start cs rest : List Char}
    (h : dropPrefix? start cs = some rest) : cs = start ++ rest := by
  unfold dropPrefix? at h
  split at h
  · cases h
    obtain ⟨tail, rfl⟩ := List.isPrefixOf_iff_prefix.1 ‹_›
    simp
  · cases h

theorem eq_append_of_dropSuffix? {stop cs rest : List Char}
    (h : dropSuffix? stop cs = some rest) : cs = rest ++ stop := by
  unfold dropSuffix? at h
  split at h
  · cases h
    obtain ⟨front, rfl⟩ := List.isSuffixOf_iff_suffix.1 ‹_›
    simp
  · cases h

theorem dropPrefix?_append (start rest : List Char) :
    dropPrefix? start (start ++ rest) = some rest := by
  have begins : start.isPrefixOf (start ++ rest) = true :=
    List.isPrefixOf_iff_prefix.2 (List.prefix_append start rest)
  rw [dropPrefix?, if_pos begins, List.drop_left]

theorem dropSuffix?_append (front stop : List Char) :
    dropSuffix? stop (front ++ stop) = some front := by
  have ends : stop.isSuffixOf (front ++ stop) = true :=
    List.isSuffixOf_iff_suffix.2 (List.suffix_append front stop)
  rw [dropSuffix?, if_pos ends, List.length_append, Nat.add_sub_cancel, List.take_left]

/-- A text that begins with another character keeps it. -/
theorem dropPrefix?_of_head? {c : Char} {cs : List Char} (h : cs.head? ≠ some c) :
    dropPrefix? [c] cs = none := by
  cases found : dropPrefix? [c] cs with
  | none => rfl
  | some rest =>
    rw [eq_append_of_dropPrefix? found] at h
    exact absurd rfl h

/-- A text that ends with another character keeps it. -/
theorem dropSuffix?_of_getLast? {c : Char} {cs : List Char} (h : cs.getLast? ≠ some c) :
    dropSuffix? [c] cs = none := by
  cases found : dropSuffix? [c] cs with
  | none => rfl
  | some rest =>
    rw [eq_append_of_dropSuffix? found] at h
    exact absurd List.getLast?_concat h

end Stencil.Text
