import Stencil.Proofs.Markup

/-!
Escaped text and the text behind it.

A text may look like an escaped one before it is escaped, as `&lt;` does. It can be told from
`<` all the same. The entities are a code of which no word begins another, and an ampersand is
never written but at the front of one. So escaped text is read from left to right without a
choice: `unescapeChars_escapeChar_append` is the step, and `escape_spec` says what follows from
it for whole texts.
-/

namespace Stencil.Html

/-! ## Reading entities -/

/-- What special characters are written as. -/
def entities : List String := ["&amp;", "&lt;", "&gt;", "&quot;", "&#39;"]

/-- A text with each entity read as the character that it stands for, from left to right. -/
def unescapeChars : List Char → List Char
  | '&' :: 'a' :: 'm' :: 'p' :: ';' :: rest => '&' :: unescapeChars rest
  | '&' :: 'l' :: 't' :: ';' :: rest => '<' :: unescapeChars rest
  | '&' :: 'g' :: 't' :: ';' :: rest => '>' :: unescapeChars rest
  | '&' :: 'q' :: 'u' :: 'o' :: 't' :: ';' :: rest => '"' :: unescapeChars rest
  | '&' :: '#' :: '3' :: '9' :: ';' :: rest => '\'' :: unescapeChars rest
  | c :: rest => c :: unescapeChars rest
  | [] => []

def unescape (text : String) : String := String.ofList (unescapeChars text.toList)

theorem unescapeChars_cons {c : Char} (h : c ≠ '&') (rest : List Char) :
    unescapeChars (c :: rest) = c :: unescapeChars rest := by
  rw [unescapeChars.eq_def]
  split <;> simp_all

theorem entity_mem_entities {c : Char} {entity : String} (h : entity? c = some entity) :
    entity ∈ entities := by
  unfold entity? at h
  split at h <;> cases h <;> decide

/-- An entity is read as the character that it is written for, whatever follows it. -/
theorem unescapeChars_entity_append {c : Char} {entity : String} (h : entity? c = some entity)
    (rest : List Char) : unescapeChars (entity.toList ++ rest) = c :: unescapeChars rest := by
  unfold entity? at h
  split at h <;> cases h <;> rfl

/-- What is written for a character is read as that character, whatever follows. -/
theorem unescapeChars_escapeChar_append (c : Char) (rest : List Char) :
    unescapeChars (escapeChar c ++ rest) = c :: unescapeChars rest := by
  unfold escapeChar
  cases found : entity? c with
  | some entity => exact unescapeChars_entity_append found rest
  | none =>
    refine unescapeChars_cons ?_ rest
    rintro rfl
    cases found

/-- Escaped text is read as the text that was escaped. -/
theorem unescapeChars_escapeChars (cs : List Char) : unescapeChars (escapeChars cs) = cs := by
  induction cs with
  | nil => rfl
  | cons c cs ih =>
    rw [escapeChars, List.flatMap_cons, unescapeChars_escapeChar_append]
    exact congrArg (c :: ·) ih

theorem unescape_escape (text : String) : unescape (escape text) = text := by
  rw [unescape, toList_escape, unescapeChars_escapeChars, String.ofList_toList]

/-! ## Ampersands -/

theorem ampersand_notMem_tail {c : Char} {entity : String} (h : entity? c = some entity) :
    '&' ∉ entity.toList.tail := by
  unfold entity? at h
  split at h <;> cases h <;> decide

/-- What is written for a character holds no ampersand but that at the front of an entity. -/
theorem exists_entity_of_escapeChar {c : Char} {front back : List Char}
    (h : escapeChar c = front ++ '&' :: back) :
    front = [] ∧ ∃ entity, entity? c = some entity ∧ '&' :: back = entity.toList := by
  unfold escapeChar at h
  cases found : entity? c with
  | some entity =>
    rw [found] at h
    cases front with
    | nil => exact ⟨rfl, entity, rfl, h.symm⟩
    | cons d front =>
      have later : '&' ∈ entity.toList.tail := by simp [h]
      exact absurd later (ampersand_notMem_tail found)
  | none =>
    rw [found] at h
    have isAmpersand : '&' ∈ [c] := by simp [h]
    rw [← List.mem_singleton.1 isAmpersand] at found
    cases found

/-- Whether an ampersand begins the entity of a character that was escaped: in front of it stand
the characters of a text up to that one, escaped, and behind it the rest of the entity and then
the later characters, escaped. -/
def BeginsEntity (text front back : List Char) : Prop :=
  ∃ before c after, ∃ entity ∈ entities, text = before ++ c :: after ∧ entity? c = some entity ∧
    front = escapeChars before ∧ '&' :: back = entity.toList ++ escapeChars after

theorem BeginsEntity.cons {cs front back : List Char} (h : BeginsEntity cs front back) (d : Char) :
    BeginsEntity (d :: cs) (escapeChar d ++ front) back := by
  obtain ⟨before, c, after, entity, known, rfl, found, rfl, rest⟩ := h
  exact ⟨d :: before, c, after, entity, known, rfl, found, rfl, rest⟩

/-- Escaping leaves no other ampersand. -/
theorem beginsEntity_of_escapeChars {cs front back : List Char}
    (h : escapeChars cs = front ++ '&' :: back) : BeginsEntity cs front back := by
  induction cs generalizing front with
  | nil => simp [escapeChars] at h
  | cons d cs ih =>
    have whole : escapeChar d ++ escapeChars cs = front ++ '&' :: back := h
    rcases List.append_eq_append_iff.1 whole with ⟨more, rfl, later⟩ | ⟨inside, here, rest⟩
    · exact (ih later).cons d
    · cases inside with
      | nil =>
        have later : escapeChars cs = [] ++ '&' :: back := rest.symm
        rw [List.append_nil] at here
        rw [← here, ← List.append_nil (escapeChar d)]
        exact (ih later).cons d
      | cons a inside =>
        obtain ⟨rfl, rfl⟩ := List.cons.inj rest
        obtain ⟨rfl, entity, found, same⟩ := exists_entity_of_escapeChar here
        refine ⟨[], d, cs, entity, entity_mem_entities found, rfl, found, rfl, ?_⟩
        rw [← same]
        rfl

/-! ## Whole texts -/

/-- Escaped text has no markup. Each ampersand in it begins an entity, of which there are five,
for a character of the text. To read the entities from left to right gives the text back, so
different texts are escaped differently. The shortcut for texts without special characters is
no exception to the way through all characters. -/
theorem escape_spec (text : String) :
    (∀ c ∈ ['<', '>', '"', '\''], c ∉ (escape text).toList) ∧
    (∀ front back, (escape text).toList = front ++ '&' :: back →
      BeginsEntity text.toList front back) ∧
    unescape (escape text) = text ∧
    escape text = String.ofList (escapeChars text.toList) ∧
    ∀ other, escape text = escape other → text = other := by
  refine ⟨?plain, ?ampersands, unescape_escape text, ?shortcut, ?injective⟩
  case plain =>
    intro c markup member
    have isPlain := plain_escape text c member
    rw [isMarkup_iff.2 (by simpa using markup)] at isPlain
    cases isPlain
  case ampersands =>
    intro front back whole
    rw [toList_escape] at whole
    exact beginsEntity_of_escapeChars whole
  case shortcut =>
    rw [← toList_escape, String.ofList_toList]
  case injective =>
    intro other same
    rw [← unescape_escape text, same, unescape_escape]

/-- A text that looks escaped already. -/
example : escape "&lt;<" = "&amp;lt;&lt;" ∧ unescape "&amp;lt;&lt;" = "&lt;<" := by
  decide +kernel

end Stencil.Html
