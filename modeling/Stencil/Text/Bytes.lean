/-!
Byte measures of character lists. Columns and widths count the bytes of the
UTF-8 form, so a text is cut at byte offsets; an offset inside a character is no
place to cut, and the cutting functions then answer `none`.

The main statement is `takeBytes?_append_dropBytes?`: the two parts of a cut
make the whole text again.
-/

namespace Stencil.Text

/-- The number of bytes of a text in UTF-8. -/
def byteLength : List Char → Nat
  | [] => 0
  | c :: cs => c.utf8Size + byteLength cs

theorem byteLength_append (xs ys : List Char) :
    byteLength (xs ++ ys) = byteLength xs + byteLength ys := by
  induction xs with
  | nil => simp [byteLength]
  | cons c cs ih => simp [byteLength, ih, Nat.add_assoc]

/-- What follows the first `n` bytes, if the text is so long and no character
lies across that offset. -/
def dropBytes? (n : Nat) : List Char → Option (List Char)
  | [] => if n = 0 then some [] else none
  | c :: cs =>
    if n = 0 then some (c :: cs)
    else if n < c.utf8Size then none
    else dropBytes? (n - c.utf8Size) cs

/-- The first `n` bytes, under the same conditions. -/
def takeBytes? (n : Nat) : List Char → Option (List Char)
  | [] => if n = 0 then some [] else none
  | c :: cs =>
    if n = 0 then some []
    else if n < c.utf8Size then none
    else (takeBytes? (n - c.utf8Size) cs).map (c :: ·)

theorem takeBytes?_append_dropBytes? {n : Nat} {cs front back : List Char}
    (hf : takeBytes? n cs = some front) (hb : dropBytes? n cs = some back) :
    front ++ back = cs := by
  induction cs generalizing n front back with
  | nil =>
    by_cases hn : n = 0 <;> simp_all [takeBytes?, dropBytes?]
  | cons c cs ih =>
    by_cases hn : n = 0
    · simp_all [takeBytes?, dropBytes?]
    · by_cases hc : n < c.utf8Size
      · simp [takeBytes?, hn, hc] at hf
      · simp only [takeBytes?, dropBytes?, hn, hc, if_false, Option.map_eq_some_iff] at hf hb
        obtain ⟨tail, htail, rfl⟩ := hf
        simp [ih htail hb]

theorem dropBytes?_append (front back : List Char) :
    dropBytes? (byteLength front) (front ++ back) = some back := by
  induction front with
  | nil => cases back <;> simp [byteLength, dropBytes?]
  | cons c front ih =>
    have size := c.utf8Size_pos
    rw [List.cons_append, byteLength, dropBytes?, if_neg (by omega), if_neg (by omega),
      Nat.add_sub_cancel_left, ih]

theorem takeBytes?_append (front back : List Char) :
    takeBytes? (byteLength front) (front ++ back) = some front := by
  induction front with
  | nil => cases back <;> simp [byteLength, takeBytes?]
  | cons c front ih =>
    have size := c.utf8Size_pos
    rw [List.cons_append, byteLength, takeBytes?, if_neg (by omega), if_neg (by omega),
      Nat.add_sub_cancel_left, ih, Option.map_some]

/-- The bytes from `start` up to `stop`; `none` if they are out of order, beyond
the end, or inside a character. -/
def slice? (cs : List Char) (start stop : Nat) : Option (List Char) := do
  if stop < start then none
  takeBytes? (stop - start) (← dropBytes? start cs)

/-- A slice between two cuts is the text between them. -/
theorem slice?_append (front inside back : List Char) :
    slice? (front ++ (inside ++ back)) (byteLength front)
      (byteLength front + byteLength inside) = some inside := by
  simp [slice?, dropBytes?_append, takeBytes?_append]

end Stencil.Text
