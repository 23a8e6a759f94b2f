import Mathlib.Algebra.Ring.Nat
import Mathlib.Data.List.Basic
import Stencil.Proofs.Dotted
import Stencil.Proofs.Lookup

/-!
Which keys a name can reach.

A value below mappings has a chain of keys, and dotted text can be made of them. The way back
goes through `Step.ofSegment`: a key of digits becomes a number, and at a mapping the number
becomes a key again. Everything but leading zeros survives this. `IsPadded` names the keys that
do not, and `Store.getDotted?_keys_iff` says that they are all that is out of reach.
-/

namespace Stencil

/-! ## Digits -/

namespace Text

variable {cs : List Char}

theorem decimalNumber_eq (cs : List Char) : decimalNumber cs = Nat.ofDigitChars 10 cs 0 := by
  unfold decimalNumber Nat.ofDigitChars
  congr 1
  funext n c
  rw [Nat.mul_comm]

theorem digitChar_of_isDigit {c : Char} (h : c.isDigit = true) :
    c.toNat - '0'.toNat < 10 ∧ Nat.digitChar (c.toNat - '0'.toNat) = c := by
  obtain ⟨low, high⟩ := Char.isDigit_iff_toNat.1 h
  have zero : '0'.toNat = 48 := rfl
  have nine : '9'.toNat = 57 := rfl
  have small : c.toNat - '0'.toNat < 10 := by omega
  refine ⟨small, Char.toNat_inj.1 ?_⟩
  rw [Nat.toNat_digitChar_of_lt_ten small]
  omega

/-- Digits behind those of a number that is not zero are the digits of the whole. -/
theorem toDigits_append {n : Nat} (positive : 0 < n) (digits : ∀ c ∈ cs, c.isDigit = true) :
    Nat.toDigits 10 n ++ cs = Nat.toDigits 10 (Nat.ofDigitChars 10 cs n) := by
  induction cs generalizing n with
  | nil => rw [List.append_nil, Nat.ofDigitChars_nil]
  | cons c cs ih =>
    obtain ⟨here, later⟩ := List.forall_mem_cons.1 digits
    obtain ⟨small, shown⟩ := digitChar_of_isDigit here
    have longer : Nat.toDigits 10 n ++ [c] = Nat.toDigits 10 (10 * n + (c.toNat - '0'.toNat)) := by
      rw [← Nat.toDigits_append_toDigits (by decide) positive small,
        Nat.toDigits_of_lt_base small, shown]
    rw [Nat.ofDigitChars_cons, ← ih (by omega) later, ← longer, List.append_assoc]
    rfl

/-- Digits whose first is not zero are those of the number that they write. -/
theorem toDigits_of_head_ne_zero {c : Char} (first : c ≠ '0')
    (digits : ∀ d ∈ c :: cs, d.isDigit = true) :
    Nat.toDigits 10 (decimalNumber (c :: cs)) = c :: cs := by
  obtain ⟨here, later⟩ := List.forall_mem_cons.1 digits
  obtain ⟨small, shown⟩ := digitChar_of_isDigit here
  have positive : 0 < c.toNat - '0'.toNat := by
    rw [Nat.pos_iff_ne_zero]
    intro zero
    rw [zero] at shown
    exact first shown.symm
  rw [decimalNumber_eq, Nat.ofDigitChars_cons, Nat.mul_zero, Nat.zero_add,
    ← toDigits_append positive later, Nat.toDigits_of_lt_base small, shown]
  rfl

theorem ofDigitChars_lt (digits : ∀ c ∈ cs, c.isDigit = true) (n : Nat) :
    Nat.ofDigitChars 10 cs n < (n + 1) * 10 ^ cs.length := by
  induction cs generalizing n with
  | nil =>
    rw [Nat.ofDigitChars_nil, List.length_nil, Nat.pow_zero]
    omega
  | cons c cs ih =>
    obtain ⟨here, later⟩ := List.forall_mem_cons.1 digits
    obtain ⟨small, -⟩ := digitChar_of_isDigit here
    rw [Nat.ofDigitChars_cons, List.length_cons, Nat.pow_succ']
    calc
      Nat.ofDigitChars 10 cs (10 * n + (c.toNat - '0'.toNat))
        < (10 * n + (c.toNat - '0'.toNat) + 1) * 10 ^ cs.length := ih later _
      _ ≤ ((n + 1) * 10) * 10 ^ cs.length := Nat.mul_le_mul_right _ (by omega)
      _ = (n + 1) * (10 * 10 ^ cs.length) := Nat.mul_assoc _ _ _

/-- A number is not written with a zero in front. -/
theorem toDigits_ne_of_zero (more : cs ≠ []) (digits : ∀ c ∈ cs, c.isDigit = true) :
    Nat.toDigits 10 (decimalNumber ('0' :: cs)) ≠ '0' :: cs := by
  -- The zero adds nothing to the number, but a place to what is written.
  have bound : decimalNumber ('0' :: cs) < 10 ^ cs.length := by
    have below := ofDigitChars_lt digits 0
    rw [Nat.zero_add, Nat.one_mul] at below
    rw [decimalNumber_eq, Nat.ofDigitChars_cons]
    exact below
  have short : (Nat.toDigits 10 (decimalNumber ('0' :: cs))).length ≤ cs.length :=
    (Nat.length_toDigits_le_iff (by decide) (List.length_pos_iff.2 more)).2 bound
  intro same
  rw [same, List.length_cons] at short
  omega

/-- Digits are those of the number that they write, unless there is a zero in front. -/
theorem toDigits_decimalNumber_iff (written : cs ≠ []) (digits : ∀ c ∈ cs, c.isDigit = true) :
    Nat.toDigits 10 (decimalNumber cs) = cs ↔ ¬ (cs.head? = some '0' ∧ 1 < cs.length) := by
  cases cs with
  | nil => exact absurd rfl written
  | cons c rest =>
    rw [List.head?_cons, Option.some.injEq, List.length_cons]
    by_cases zero : c = '0'
    · cases rest with
      | nil =>
        subst zero
        exact iff_of_true rfl fun padded => Nat.lt_irrefl 1 padded.2
      | cons d rest =>
        subst zero
        have ofRest := (List.forall_mem_cons.1 digits).2
        refine iff_of_false (toDigits_ne_of_zero (List.cons_ne_nil d rest) ofRest) ?_
        exact fun unpadded => unpadded ⟨rfl, Nat.succ_lt_succ (Nat.succ_pos _)⟩
    · exact iff_of_true (toDigits_of_head_ne_zero zero digits) fun padded => zero padded.1

theorem decimal?_eq_some_iff {n : Nat} :
    decimal? cs = some n ↔ cs ≠ [] ∧ (∀ c ∈ cs, c.isDigit = true) ∧ decimalNumber cs = n := by
  simp [decimal?, and_assoc]

end Text

/-! ## Segments -/

/-- Whether a segment is a number below the bound of indices, with zeros in front. -/
def IsPadded (segment : String) : Prop :=
  (∀ c ∈ segment.toList, c.isDigit = true) ∧ segment.toList.head? = some '0' ∧
    1 < segment.toList.length ∧ Text.decimalNumber segment.toList < Step.indexLimit

instance (segment : String) : Decidable (IsPadded segment) :=
  have : Decidable (∀ c ∈ segment.toList, c.isDigit = true) := List.decidableBAll _ _
  inferInstanceAs (Decidable (_ ∧ _))

/-- The step of a segment has the segment for its text, unless that is padded. -/
theorem Step.text_ofSegment_eq_iff (segment : String) :
    (Step.ofSegment segment).text = segment ↔ ¬ IsPadded segment := by
  unfold Step.ofSegment
  cases number : Text.decimal? segment.toList with
  | none =>
    refine iff_of_true rfl ?_
    rintro ⟨digits, zero, -, -⟩
    have written : segment.toList ≠ [] := by
      intro empty
      rw [empty] at zero
      cases zero
    have some := Text.decimal?_eq_some_iff.2 ⟨written, digits, rfl⟩
    rw [number] at some
    cases some
  | some n =>
    obtain ⟨written, digits, rfl⟩ := Text.decimal?_eq_some_iff.1 number
    dsimp only
    split
    · rename_i small
      have shown := Text.toDigits_decimalNumber_iff written digits
      rw [Step.text, ← String.toList_inj, Nat.toString_eq_repr, Nat.toList_repr, shown]
      exact not_congr ⟨fun padded => ⟨digits, padded.1, padded.2, small⟩,
        fun padded => ⟨padded.2.1, padded.2.2.1⟩⟩
    · rename_i large
      exact iff_of_true rfl fun padded => large padded.2.2.2

/-! ## Joined keys -/

/-- Keys without dots are the segments of the text that joins them. -/
theorem segments_intercalate {keys : List String} (written : ∀ key ∈ keys, key ≠ "")
    (undotted : ∀ key ∈ keys, '.' ∉ key.toList) : segments (String.intercalate "." keys) = keys := by
  cases keys with
  | nil => rfl
  | cons key keys =>
    rw [segments, Text.splitString_intercalate rfl (List.cons_ne_nil key keys) undotted,
      List.filter_eq_self]
    exact fun segment member => decide_eq_true (written segment member)

/-! ## Values under keys -/

namespace Value

/-- The value that a chain of keys of mappings leads to. -/
def atKeys? (v : Value) : List String → Option Value
  | [] => some v
  | key :: keys => ((v.mapping?).bind (Fields.get? key)).bind (·.atKeys? keys)

theorem atKeys?_cons (v : Value) (key : String) (keys : List String) :
    v.atKeys? (key :: keys) = (Fields.get? key v.entries).bind (·.atKeys? keys) := by
  cases v <;> rfl

theorem atKeys?_append (v : Value) (front back : List String) :
    v.atKeys? (front ++ back) = (v.atKeys? front).bind (·.atKeys? back) := by
  induction front generalizing v with
  | nil => rfl
  | cons key front ih =>
    rw [List.cons_append, atKeys?, atKeys?, Option.bind_assoc ((v.mapping?).bind _)]
    exact congrArg (Option.bind _) (funext ih)

/-- A path leads where the chain of its texts leads. -/
theorem get?_of_atKeys? {path : Path} {v below : Value}
    (h : v.atKeys? (path.map Step.text) = some below) : v.get? path = some below := by
  induction path generalizing v with
  | nil => exact h
  | cons step path ih =>
    cases v with
    | mapping entries =>
      obtain ⟨child, found, rest⟩ := Option.bind_eq_some_iff.1 h
      rw [get?, child?_mapping]
      exact Option.bind_eq_some_iff.2 ⟨child, found, ih rest⟩
    | _ => cases h

/-- Keys that are not padded lead as a path where they lead as a chain. -/
theorem get?_ofSegment_of_atKeys? {keys : List String} (unpadded : ∀ key ∈ keys, ¬ IsPadded key)
    {v below : Value} (h : v.atKeys? keys = some below) :
    v.get? (keys.map Step.ofSegment) = some below := by
  have texts : (keys.map Step.ofSegment).map Step.text = keys := by
    rw [List.map_map]
    conv_rhs => rw [← List.map_id keys]
    exact List.map_congr_left fun key member => (Step.text_ofSegment_eq_iff key).2 (unpadded key member)
  apply get?_of_atKeys?
  rw [texts]
  exact h

/-- A value at the end of a chain of keys, with nothing else beside it. -/
def nest (v : Value) : List String → Value
  | [] => v
  | key :: keys => mapping [(key, v.nest keys)]

theorem atKeys?_nest (v : Value) (keys : List String) : (v.nest keys).atKeys? keys = some v := by
  induction keys with
  | nil => rfl
  | cons key keys ih => 
    rw [nest, atKeys?]
    simp only [mapping?, Option.bind_some, Fields.get?, if_true]
    exact ih

/-- A padded key has the path lead nowhere. -/
theorem get?_nest_of_isPadded (v : Value) {keys : List String} {key : String} (member : key ∈ keys)
    (padded : IsPadded key) : (v.nest keys).get? (keys.map Step.ofSegment) = none := by
  induction keys with
  | nil => cases member
  | cons first keys ih =>
    rw [nest, List.map_cons, get?, child?_mapping, Fields.get?]
    split
    · rename_i same
      rcases List.mem_cons.1 member with rfl | later
      · exact absurd padded ((Step.text_ofSegment_eq_iff _).1 same.symm)
      · exact ih later
    · rfl

end Value

/-! ## Names -/

/-- Whether a key can be written in a tag. -/
def IsKeyWord (key : String) : Prop :=
  key ≠ "" ∧ ∀ c ∈ key.toList, (c.isAlphanum || c = '_') = true

instance (key : String) : Decidable (IsKeyWord key) :=
  have : Decidable (∀ c ∈ key.toList, (c.isAlphanum || c = '_') = true) := List.decidableBAll _ _
  inferInstanceAs (Decidable (_ ∧ _))

theorem IsKeyWord.undotted {key : String} (h : IsKeyWord key) : '.' ∉ key.toList :=
  fun member => absurd (h.2 '.' member) (by decide)

theorem Path.parse_intercalate {keys : List String} (words : ∀ key ∈ keys, IsKeyWord key) :
    Path.parse (String.intercalate "." keys) = keys.map Step.ofSegment := by
  rw [parse, segments_intercalate (fun key member => (words key member).1)
    fun key member => (words key member).undotted]

theorem Path.parse_of_isKeyWord {key : String} (word : IsKeyWord key) :
    Path.parse key = [.ofSegment key] := by
  have parsed := parse_intercalate (List.forall_mem_singleton.2 word)
  rwa [String.intercalate_singleton] at parsed

namespace Store

/-- At the root a name means what its path leads to. -/
theorem resolve_root {s : Store} {name : String} {value : Value}
    (h : s.getDotted? name = some value) :
    s.resolve [] name = .ok (.found (.parse name) value) := by
  apply resolve_of_hit
  rw [firstHit?, List.length_nil, Path.cutLengths_zero, List.findSome?_singleton, lookUp?]
  exact congrArg (Option.map _) h

/-- The chains of keys that a name can follow in every store are those without a padded key:
dotted text made of the keys reads the value at the end of the chain, and as the name of a tag
outside all sections it means this value. -/
theorem getDotted?_keys_iff {keys : List String} (words : ∀ key ∈ keys, IsKeyWord key) :
    (∀ (s : Store) (value : Value), s.root.atKeys? keys = some value →
      s.getDotted? (String.intercalate "." keys) = some value ∧
        s.resolve [] (String.intercalate "." keys) =
          .ok (.found (.parse (String.intercalate "." keys)) value)) ↔
      ∀ key ∈ keys, ¬ IsPadded key := by
  have path := Path.parse_intercalate words
  constructor
  · intro reached key member padded
    -- In a store with nothing beside the chain, a padded key finds no other key in its place.
    let s : Store := ⟨(Value.scalar "").nest keys⟩
    have found := (reached s _ (Value.atKeys?_nest _ keys)).1
    have missed : s.getDotted? (String.intercalate "." keys) = none := by
      rw [getDotted?, path]
      exact Value.get?_nest_of_isPadded _ member padded
    rw [missed] at found
    cases found
  · intro unpadded s value chain
    have found : s.getDotted? (String.intercalate "." keys) = some value := by
      rw [getDotted?, path]
      exact Value.get?_ofSegment_of_atKeys? unpadded chain
    exact ⟨found, resolve_root found⟩

/-- Keys that are numbers without padding, one of them past the bound of indices, and zero. -/
theorem getDotted?_keys_iff_numbers :
    let keys := ["0", "00018446744073709551616", "hosts_7"]
    let s : Store := ⟨(Value.list []).nest keys⟩
    (∀ key ∈ keys, IsKeyWord key) ∧ (∀ key ∈ keys, ¬ IsPadded key) ∧
      ∃ value, s.root.atKeys? keys = some value ∧
        s.getDotted? "0.00018446744073709551616.hosts_7" = some value := by
  intro keys s
  have words : ∀ key ∈ keys, IsKeyWord key := by decide +kernel
  have unpadded : ∀ key ∈ keys, ¬ IsPadded key := by decide +kernel
  have chain := Value.atKeys?_nest (.list []) keys
  exact ⟨words, unpadded, _, chain, ((getDotted?_keys_iff words).2 unpadded s _ chain).1⟩

/-- A key with zeros in front is out of reach. -/
theorem not_getDotted?_padded :
    ¬ ∀ (s : Store) (keys : List String) (value : Value), keys ≠ [] →
      (∀ key ∈ keys, IsKeyWord key) → s.root.atKeys? keys = some value →
      s.getDotted? (String.intercalate "." keys) = some value ∧
        s.resolve [] (String.intercalate "." keys) =
          .ok (.found (.parse (String.intercalate "." keys)) value) := by
  intro always
  let s : Store := ⟨.mapping [("007", .scalar "x")]⟩
  have found := (always s ["007"] (.scalar "x") (by decide) (by decide) rfl).1
  have missed : s.getDotted? (String.intercalate "." ["007"]) = none := by decide +kernel
  rw [missed] at found
  cases found

end Store

end Stencil
