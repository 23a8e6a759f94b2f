import Stencil.Proofs.Outcome
import Stencil.Text.Utf8

/-!
Reading UTF-8 against writing it.

The reader takes a character by the ranges of its bytes and puts it together by
arithmetic; the writer takes its number apart. `Spells` says which bytes the reader takes
for which character, and they turn out to be the very bytes that are written for it.

* `spells_iff`: a character is spelled by what is written for it and by nothing else.
* `decode_eq_ok_iff`: the bytes of a text, and no others, are read as that text.
-/

namespace Stencil.Text.Utf8

/-! ## Ranges of bytes -/

/-- The first bytes of characters of each length. -/
theorem lengthFrom_iff (a : UInt8) :
    (lengthFrom a = 1 ↔ a.toNat < 0x80) ∧
      (lengthFrom a = 2 ↔ 0xC2 ≤ a.toNat ∧ a.toNat < 0xE0) ∧
      (lengthFrom a = 3 ↔ 0xE0 ≤ a.toNat ∧ a.toNat < 0xF0) ∧
      (lengthFrom a = 4 ↔ 0xF0 ≤ a.toNat ∧ a.toNat < 0xF5) ∧ lengthFrom a ≤ 4 := by
  simp only [lengthFrom, UInt8.lt_iff_toNat_lt, UInt8.reduceToNat]
  grind

theorem isContinuation_iff {b : UInt8} :
    isContinuation b = true ↔ 0x80 ≤ b.toNat ∧ b.toNat ≤ 0xBF := by
  simp [isContinuation, UInt8.le_iff_toNat_le]

/-- A second byte continues a character, less what a few first bytes leave out. -/
theorem secondFits_iff {a b : UInt8} :
    secondFits a b = true ↔
      0x80 ≤ b.toNat ∧ b.toNat ≤ 0xBF ∧
        (a.toNat = 0xE0 → 0xA0 ≤ b.toNat) ∧ (a.toNat = 0xED → b.toNat ≤ 0x9F) ∧
        (a.toNat = 0xF0 → 0x90 ≤ b.toNat) ∧ (a.toNat = 0xF4 → b.toNat ≤ 0x8F) := by
  simp only [secondFits, ← UInt8.toNat_inj, UInt8.reduceToNat]
  split
  · simp [UInt8.le_iff_toNat_le]; omega
  split
  · simp [UInt8.le_iff_toNat_le]; omega
  split
  · simp [UInt8.le_iff_toNat_le]; omega
  split
  · simp [UInt8.le_iff_toNat_le]; omega
  rw [isContinuation_iff]
  omega

/-! ## The bytes of a character -/

/-- The bytes that are read as a character. -/
inductive Spells : Char → List UInt8 → Prop
  | one {a : UInt8} (first : lengthFrom a = 1) : Spells (Char.ofNat a.toNat) [a]
  | two {a b : UInt8} (first : lengthFrom a = 2) (second : secondFits a b = true) :
    Spells (assemble a 32 [b]) [a, b]
  | three {a b c : UInt8} (first : lengthFrom a = 3) (second : secondFits a b = true)
    (third : isContinuation c = true) : Spells (assemble a 16 [b, c]) [a, b, c]
  | four {a b c d : UInt8} (first : lengthFrom a = 4) (second : secondFits a b = true)
    (third : isContinuation c = true) (fourth : isContinuation d = true) :
    Spells (assemble a 8 [b, c, d]) [a, b, c, d]

/-- The bytes written for the character with a number. -/
def written (n : Nat) : List UInt8 :=
  if n ≤ 0x7F then [.ofNat n]
  else if n ≤ 0x7FF then [.ofNat (n / 64 % 32 + 0xC0), .ofNat (n % 64 + 0x80)]
  else if n ≤ 0xFFFF then
    [.ofNat (n / 4096 % 16 + 0xE0), .ofNat (n / 64 % 64 + 0x80), .ofNat (n % 64 + 0x80)]
  else
    [.ofNat (n / 262144 % 8 + 0xF0), .ofNat (n / 4096 % 64 + 0x80), .ofNat (n / 64 % 64 + 0x80),
      .ofNat (n % 64 + 0x80)]

/-- The numbers of characters. Surrogates are left out. -/
abbrev IsNumber (n : Nat) : Prop := n < 0xD800 ∨ 0xDFFF < n ∧ n < 0x110000

theorem utf8EncodeChar_ofNat {n : Nat} (h : IsNumber n) :
    String.utf8EncodeChar (Char.ofNat n) = written n := by
  have number : (Char.ofNat n).toNat = n := by
    rw [Char.ofNat, dif_pos h]
    rfl
  change written (Char.ofNat n).toNat = written n
  rw [number]

theorem ofNat_eq_of_toNat {n : Nat} {a : UInt8} (h : n = a.toNat) : UInt8.ofNat n = a := by
  rw [h, UInt8.ofNat_toNat]

/-- What is read as a character is what is written for it. -/
theorem Spells.utf8EncodeChar_eq {c : Char} {bytes : List UInt8} (h : Spells c bytes) :
    String.utf8EncodeChar c = bytes := by
  cases h with
  | @one a first =>
    have range := (lengthFrom_iff a).1.1 first
    have number : IsNumber a.toNat := by omega
    rw [utf8EncodeChar_ofNat number, written, if_pos (by omega), UInt8.ofNat_toNat]
  | @two a b first second =>
    have range := (lengthFrom_iff a).2.1.1 first
    have follows := secondFits_iff.1 second
    change String.utf8EncodeChar (Char.ofNat (a.toNat % 32 * 64 + b.toNat % 64)) = _
    generalize sum : a.toNat % 32 * 64 + b.toNat % 64 = n
    have number : IsNumber n := by omega
    have ha : UInt8.ofNat (n / 64 % 32 + 0xC0) = a := ofNat_eq_of_toNat (by omega)
    have hb : UInt8.ofNat (n % 64 + 0x80) = b := ofNat_eq_of_toNat (by omega)
    rw [utf8EncodeChar_ofNat number, written, if_neg (by omega), if_pos (by omega), ha, hb]
  | @three a b c first second third =>
    have range := (lengthFrom_iff a).2.2.1.1 first
    have follows := secondFits_iff.1 second
    have last := isContinuation_iff.1 third
    change String.utf8EncodeChar
      (Char.ofNat ((a.toNat % 16 * 64 + b.toNat % 64) * 64 + c.toNat % 64)) = _
    generalize sum : (a.toNat % 16 * 64 + b.toNat % 64) * 64 + c.toNat % 64 = n
    have number : IsNumber n := by omega
    have ha : UInt8.ofNat (n / 4096 % 16 + 0xE0) = a := ofNat_eq_of_toNat (by omega)
    have hb : UInt8.ofNat (n / 64 % 64 + 0x80) = b := ofNat_eq_of_toNat (by omega)
    have hc : UInt8.ofNat (n % 64 + 0x80) = c := ofNat_eq_of_toNat (by omega)
    rw [utf8EncodeChar_ofNat number, written, if_neg (by omega), if_neg (by omega),
      if_pos (by omega), ha, hb, hc]
  | @four a b c d first second third fourth =>
    have range := (lengthFrom_iff a).2.2.2.1.1 first
    have follows := secondFits_iff.1 second
    have next := isContinuation_iff.1 third
    have last := isContinuation_iff.1 fourth
    change String.utf8EncodeChar
      (Char.ofNat (((a.toNat % 8 * 64 + b.toNat % 64) * 64 + c.toNat % 64) * 64 + d.toNat % 64)) = _
    generalize sum :
      ((a.toNat % 8 * 64 + b.toNat % 64) * 64 + c.toNat % 64) * 64 + d.toNat % 64 = n
    have number : IsNumber n := by omega
    have ha : UInt8.ofNat (n / 262144 % 8 + 0xF0) = a := ofNat_eq_of_toNat (by omega)
    have hb : UInt8.ofNat (n / 4096 % 64 + 0x80) = b := ofNat_eq_of_toNat (by omega)
    have hc : UInt8.ofNat (n / 64 % 64 + 0x80) = c := ofNat_eq_of_toNat (by omega)
    have hd : UInt8.ofNat (n % 64 + 0x80) = d := ofNat_eq_of_toNat (by omega)
    rw [utf8EncodeChar_ofNat number, written, if_neg (by omega), if_neg (by omega),
      if_neg (by omega), ha, hb, hc, hd]

/-- What is written for a character is read as one. -/
theorem exists_spells_written {n : Nat} (number : IsNumber n) : ∃ c, Spells c (written n) := by
  have byte (m : Nat) (small : m < 256) : (UInt8.ofNat m).toNat = m := by
    rw [UInt8.toNat_ofNat', Nat.mod_eq_of_lt small]
  have tail (m : Nat) : isContinuation (.ofNat (m % 64 + 0x80)) = true := by
    have := byte (m % 64 + 0x80) (by omega)
    exact isContinuation_iff.2 (by omega)
  have last := byte (n % 64 + 0x80) (by omega)
  have next := byte (n / 64 % 64 + 0x80) (by omega)
  unfold written
  split
  · have first := byte n (by omega)
    exact ⟨_, .one ((lengthFrom_iff _).1.2 (by omega))⟩
  split
  · have first := byte (n / 64 % 32 + 0xC0) (by omega)
    exact ⟨_, .two ((lengthFrom_iff _).2.1.2 (by omega)) (secondFits_iff.2 (by omega))⟩
  split
  · have first := byte (n / 4096 % 16 + 0xE0) (by omega)
    exact ⟨_, .three ((lengthFrom_iff _).2.2.1.2 (by omega)) (secondFits_iff.2 (by omega)) (tail n)⟩
  · have first := byte (n / 262144 % 8 + 0xF0) (by omega)
    have second := byte (n / 4096 % 64 + 0x80) (by omega)
    exact ⟨_, .four ((lengthFrom_iff _).2.2.2.1.2 (by omega)) (secondFits_iff.2 (by omega))
      (tail (n / 64)) (tail n)⟩

/-- A character is spelled by what is written for it, and by nothing else. -/
theorem spells_iff {c : Char} {bytes : List UInt8} :
    Spells c bytes ↔ String.utf8EncodeChar c = bytes := by
  refine ⟨Spells.utf8EncodeChar_eq, ?_⟩
  rintro rfl
  obtain ⟨other, spells⟩ := exists_spells_written c.valid
  -- Both characters are written alike, and a string tells its characters apart.
  have alike : String.utf8EncodeChar other = String.utf8EncodeChar c := spells.utf8EncodeChar_eq
  have same : String.ofList [other] = String.ofList [c] := by
    rw [← String.toByteArray_inj, String.toByteArray_ofList, String.toByteArray_ofList,
      List.utf8Encode_singleton, List.utf8Encode_singleton, alike]
  rw [String.ofList_inj, List.singleton_inj] at same
  subst same
  exact alike ▸ spells

/-! ## Texts -/

theorem decodeFrom_append_of_spells {c : Char} {bytes : List UInt8} (h : Spells c bytes)
    (start : Nat) (rest : List UInt8) :
    decodeFrom start (bytes ++ rest) =
      (decodeFrom (start + bytes.length) rest).map (c :: ·) := by
  cases h with
  | one first =>
    rw [List.singleton_append, decodeFrom.eq_def]
    simp only [first]
    rfl
  | two first second =>
    rw [List.cons_append, List.singleton_append, decodeFrom.eq_def]
    simp only [first, second]
    rfl
  | three first second third =>
    rw [List.cons_append, List.cons_append, List.singleton_append, decodeFrom.eq_def]
    simp only [first, second, third]
    rfl
  | four first second third fourth =>
    rw [List.cons_append, List.cons_append, List.cons_append, List.singleton_append,
      decodeFrom.eq_def]
    simp only [first, second, third, fourth]
    rfl

theorem decodeFrom_flatMap (start : Nat) (cs : List Char) :
    decodeFrom start (cs.flatMap String.utf8EncodeChar) = .ok cs := by
  induction cs generalizing start with
  | nil => rfl
  | cons c cs ih =>
    rw [List.flatMap_cons, decodeFrom_append_of_spells (spells_iff.2 rfl), ih]
    rfl

/-- Bytes that are read are made of bytes that spell the characters. -/
theorem eq_flatMap_of_decodeFrom {start : Nat} {bytes : List UInt8} {cs : List Char}
    (h : decodeFrom start bytes = .ok cs) : bytes = cs.flatMap String.utf8EncodeChar := by
  have step {c : Char} {front rest : List UInt8} {cs : List Char} {read : Except Fault (List Char)}
      (spells : Spells c front) (ih : ∀ {cs}, read = .ok cs → rest = cs.flatMap String.utf8EncodeChar)
      (h : (do return c :: (← read)) = .ok cs) :
      front ++ rest = cs.flatMap String.utf8EncodeChar := by
    obtain ⟨others, found, same⟩ := bind_eq_ok_iff.1 h
    cases same
    rw [List.flatMap_cons, spells.utf8EncodeChar_eq, ih found]
  fun_induction decodeFrom start bytes generalizing cs with
  | case1 =>
    cases h
    rfl
  | case2 start a rest first ih => exact step (.one first) ih h
  | case6 start a b second rest first ih => exact step (.two first (by simpa using second)) ih h
  | case9 start a b second c third rest first ih =>
    exact step (.three first (by simpa using second) (by simpa using third)) ih h
  | case12 start a b second n c third d rest fourth more first ih =>
    have most := (lengthFrom_iff a).2.2.2.2
    have positive : 0 < n := Nat.pos_of_ne_zero more
    have four : lengthFrom a = 4 := by omega
    exact step (.four four (by simpa using second) (by simpa using third)
      (by simpa using fourth)) ih h
  | _ => cases h

theorem toList_eq_toList_data (bytes : ByteArray) : bytes.toList = bytes.data.toList := by
  have loop (i : Nat) (taken : List UInt8) :
      ByteArray.toList.loop bytes i taken = taken.reverse ++ bytes.data.toList.drop i := by
    fun_induction ByteArray.toList.loop bytes i taken with
    | case1 i taken inside ih =>
      have here : i < bytes.data.toList.length := by simpa using inside
      rw [ih, List.drop_eq_getElem_cons here]
      simp [ByteArray.get!, inside]
    | case2 i taken outside =>
      rw [List.drop_eq_nil_of_le (by simpa using Nat.le_of_not_lt outside), List.append_nil]
  exact loop 0 []

theorem encode_eq_flatMap (text : String) :
    encode text = text.toList.flatMap String.utf8EncodeChar := by
  rw [encode, toList_eq_toList_data, String.toUTF8_eq_toByteArray, ← String.utf8Encode_toList,
    List.utf8Encode, List.toList_data_toByteArray]

/-- The bytes of a text, and no others, are read as that text. -/
theorem decode_eq_ok_iff {bytes : List UInt8} {text : String} :
    decode bytes = .ok text ↔ bytes = encode text := by
  rw [encode_eq_flatMap, decode, map_eq_ok_iff]
  constructor
  · rintro ⟨cs, read, rfl⟩
    rw [String.toList_ofList]
    exact eq_flatMap_of_decodeFrom read
  · rintro rfl
    exact ⟨text.toList, decodeFrom_flatMap 0 text.toList, String.ofList_toList⟩

end Stencil.Text.Utf8
