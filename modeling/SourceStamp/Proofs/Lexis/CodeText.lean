import SourceStamp.Proofs.Lexis.Reading

/-!
# Texts that keep the reader in code

A text is *closed* when reading it from code ends in code, whatever follows it: nothing that it opens
stays open, and its last character cannot start a delimiter with the next one.

- `Reading.Inert`: a closed text whose first character completes no comment opener.
- `Reading.Closed.append`: closed texts can be put together.
- `Reading.closed_of_plain`: a text without quotes, backticks and slashes is closed.
- `Reading.closed_stringLiteral`: so is a string literal, unless the text in it ends with a backslash.
  (A literal that ends in an escaped backslash would not be closed: the reader looks back one
  character only.)
- `CodeAt`: a character of a source text that stands in code.
-/

namespace SourceStamp

open Text (backslash backtick doubleQuote singleQuote hexDigit hexDigits literalChar stringLiteral)

/-- The character opens nothing when it stands in code. -/
def isPlain (c : Char) : Bool :=
  c != doubleQuote && c != singleQuote && c != backtick && c != '/'

namespace Reading

/-- Read from code, the text ends in code, whatever follows it. -/
def Closed (t : Text) : Prop :=
  ∀ (r : Reading) (following : Option Char), r.InCode → (r.read following t).InCode

/-- A text that opens nothing and completes no comment opener before it. -/
structure Inert (t : Text) : Prop where
  closed : Closed t
  head_spec : ∃ c, t.head? = some c ∧ c ≠ '/' ∧ c ≠ '*'

theorem closed_nil : Closed [] := fun _ _ h => h

theorem Closed.append {x y : Text} (hx : Closed x) (hy : Closed y) : Closed (x ++ y) := by
  intro r following h
  rw [read_append]
  exact hy _ _ (hx _ _ h)

theorem isPlain_iff {c : Char} :
    isPlain c = true ↔ c ≠ doubleQuote ∧ c ≠ singleQuote ∧ c ≠ backtick ∧ c ≠ '/' := by
  simp [isPlain, and_assoc]

/-- A plain character in code is followed by code. -/
theorem InCode.next_plain {r : Reading} (h : r.InCode) {c : Char} (hc : isPlain c = true)
    (following : Option Char) : (r.next c following).InCode := by
  obtain ⟨hd, hs, hb, ho⟩ := isPlain_iff.mp hc
  exact h.next hd hs hb (.inl ho)

theorem closed_of_plain {t : Text} (h : t.all isPlain = true) : Closed t := by
  induction t with
  | nil => exact closed_nil
  | cons c t ih =>
    intro r following hr
    obtain ⟨hc, ht⟩ := Bool.and_eq_true_iff.mp (List.all_cons ▸ h)
    rw [read_cons]
    exact ih ht _ _ (hr.next_plain hc _)

/-! ## String literals -/

/-- The reader is inside a string in double quotes. -/
structure InQuotes (r : Reading) : Prop where
  state_eq : r.state = .string doubleQuote
  halfway_eq : r.halfway = false

/-- The reader is inside a string in double quotes, and the next character is not escaped. -/
structure InLiteral (r : Reading) : Prop extends InQuotes r where
  previous_ne : r.previous ≠ some backslash

/-- In a string, a character other than its quote changes nothing, and neither does an escaped
quote. -/
theorem next_in_string {r : Reading} (hs : r.state = .string doubleQuote) (hh : r.halfway = false)
    {c : Char} (hc : c ≠ doubleQuote ∨ r.previous = some backslash) (following : Option Char) :
    r.next c following = ⟨.string doubleQuote, false, some c⟩ := by
  rw [next_of_not_halfway hh, hs]
  rcases hc with hc | hc <;> simp [LexicalState.move, hc]

/-- A text without quotes and backslashes, read inside a literal, stays inside. -/
theorem InLiteral.read {r : Reading} (h : r.InLiteral) (following : Option Char) {t : Text}
    (ht : ∀ c ∈ t, c ≠ doubleQuote ∧ c ≠ backslash) : (r.read following t).InLiteral := by
  induction t generalizing r with
  | nil => exact h
  | cons c t ih =>
    obtain ⟨hq, hb⟩ := ht c List.mem_cons_self
    rw [read_cons, next_in_string h.state_eq h.halfway_eq (.inl hq)]
    refine ih ⟨⟨rfl, rfl⟩, ?_⟩ fun d hd => ht d (List.mem_cons_of_mem c hd)
    simpa using hb

/-- An escape sequence, read inside a literal, stays inside: what follows the backslash is a quote,
or a text without quotes and backslashes. -/
theorem InQuotes.read_escape {r : Reading} (h : r.InQuotes) (following : Option Char) {t : Text}
    (ht : t = [doubleQuote] ∨ t ≠ [] ∧ ∀ c ∈ t, c ≠ doubleQuote ∧ c ≠ backslash) :
    (r.read following (backslash :: t)).InLiteral := by
  rw [read_cons, next_in_string h.state_eq h.halfway_eq (.inl (by decide))]
  rcases ht with rfl | ⟨hne, ht⟩
  · rw [read_cons, next_in_string rfl rfl (.inr rfl)]
    exact ⟨⟨rfl, rfl⟩, fun h => nomatch h⟩
  · obtain ⟨c, t, rfl⟩ := List.exists_cons_of_ne_nil hne
    obtain ⟨hq, hb⟩ := ht c List.mem_cons_self
    rw [read_cons, next_in_string rfl rfl (.inl hq)]
    refine InLiteral.read ⟨⟨rfl, rfl⟩, ?_⟩ following fun d hd => ht d (List.mem_cons_of_mem c hd)
    simpa using hb

theorem InQuotes.read_letterEscape {r : Reading} (h : r.InQuotes) (following : Option Char)
    {c : Char} (hc : c ≠ doubleQuote ∧ c ≠ backslash) :
    (r.read following [backslash, c]).InLiteral :=
  h.read_escape following (.inr ⟨List.cons_ne_nil c [], List.forall_mem_singleton.mpr hc⟩)

theorem exists_of_mem_hexDigits {w n : Nat} {c : Char} (h : c ∈ hexDigits w n) :
    ∃ k < 16, hexDigit k = c := by
  induction w generalizing n with
  | zero => cases h
  | succ w ih =>
    rcases List.mem_append.mp h with h | h
    · exact ih h
    · exact ⟨n % 16, Nat.mod_lt n (by decide), (List.mem_singleton.mp h).symm⟩

theorem hexDigit_ne : ∀ k < 16, hexDigit k ≠ doubleQuote ∧ hexDigit k ≠ backslash := by decide

theorem hexDigits_ne (w n : Nat) : ∀ c ∈ hexDigits w n, c ≠ doubleQuote ∧ c ≠ backslash := by
  intro c hc
  obtain ⟨k, hk, rfl⟩ := exists_of_mem_hexDigits hc
  exact hexDigit_ne k hk

theorem InQuotes.read_unitEscape {r : Reading} (h : r.InQuotes) (following : Option Char)
    (n : Nat) : (r.read following (Text.unitEscape n)).InLiteral := by
  refine h.read_escape following (.inr ⟨by simp, ?_⟩)
  intro c hc
  rcases List.mem_cons.mp hc with rfl | hc
  · decide
  · exact hexDigits_ne 4 n c hc

/-- What a literal writes for a character other than a backslash keeps the reader inside it, even
right after a backslash. -/
theorem InQuotes.read_literalChar {r : Reading} (h : r.InQuotes) (following : Option Char)
    {c : Char} (hc : c ≠ backslash) : (r.read following (literalChar c)).InLiteral := by
  unfold literalChar
  split
  · exact h.read_escape following (.inl rfl)
  · next hq =>
    -- escapes of one letter, then the character itself, then its code point
    repeat' split
    iterate 5 exact h.read_letterEscape following (by decide)
    · rw [read_cons, next_in_string h.state_eq h.halfway_eq (.inl hq)]
      exact ⟨⟨rfl, rfl⟩, by simpa using hc⟩
    · unfold Text.codePointEscape
      split
      · exact h.read_unitEscape following _
      · rw [read_append]
        exact (h.read_unitEscape _ _).read_unitEscape following _

/-- For a backslash it writes two, which end no literal either. -/
theorem InQuotes.read_flatMap {r : Reading} (h : r.InQuotes) (following : Option Char) (t : Text) :
    (r.read following (t.flatMap literalChar)).InQuotes := by
  induction t generalizing r with
  | nil => exact h
  | cons c t ih =>
    rw [List.flatMap_cons, read_append]
    refine ih ?_
    by_cases hc : c = backslash
    · have hwritten : literalChar c = [backslash, backslash] := by rw [hc]; rfl
      rw [hwritten, read_cons, next_in_string h.state_eq h.halfway_eq (.inl (by decide)), read_cons,
        next_in_string rfl rfl (.inr rfl)]
      exact ⟨rfl, rfl⟩
    · exact (h.read_literalChar _ hc).toInQuotes

/-- So after a text that does not end with a backslash, the next character is not escaped. -/
theorem InLiteral.read_flatMap {r : Reading} (h : r.InLiteral) (following : Option Char) {t : Text}
    (ht : t.getLast? ≠ some backslash) : (r.read following (t.flatMap literalChar)).InLiteral := by
  rcases List.eq_nil_or_concat t with rfl | ⟨t, c, rfl⟩
  · exact h
  · rw [List.concat_eq_append] at ht ⊢
    have hc : c ≠ backslash := by simpa using ht
    rw [List.flatMap_append, read_append, List.flatMap_singleton]
    exact (h.toInQuotes.read_flatMap _ t).read_literalChar following hc

/-- A quote in code opens a literal. -/
theorem InCode.next_quote {r : Reading} (h : r.InCode) (following : Option Char) :
    (r.next doubleQuote following).InLiteral := by
  have hne : doubleQuote ≠ '/' := by decide
  rw [next_of_not_halfway h.halfway_eq, h.state_eq]
  refine ⟨⟨?_, ?_⟩, ?_⟩ <;> simp [LexicalState.move, hne]
  decide

/-- A quote that is not escaped ends it. -/
theorem InLiteral.next_quote {r : Reading} (h : r.InLiteral) (following : Option Char) :
    (r.next doubleQuote following).InCode := by
  have hprev : (r.previous == some backslash) = false := by simpa using h.previous_ne
  rw [next_of_not_halfway h.halfway_eq, h.state_eq, hprev]
  constructor <;> simp [LexicalState.move]

/-- **String literals are closed**: no character of the text in it ends the literal early, and the
quote at its end does end it. -/
theorem closed_stringLiteral {t : Text} (ht : t.getLast? ≠ some backslash) :
    Closed (stringLiteral t) := by
  intro r following hr
  unfold stringLiteral
  rw [read_cons, read_append]
  exact ((hr.next_quote _).read_flatMap _ ht).next_quote following

end Reading

/-! ## Characters in code -/

/-- A character that stands in code. -/
structure CodeAt (t : Text) (p : Nat) (c : Char) : Prop where
  get_eq : t[p]? = some c
  inCode : (readingAt t p).InCode

theorem CodeAt.lt {t : Text} {p : Nat} {c : Char} (h : CodeAt t p c) : p < t.length :=
  (List.getElem?_eq_some_iff.mp h.get_eq).1

/-- An offset holds one character. -/
theorem CodeAt.unique {t : Text} {p : Nat} {c d : Char} (h : CodeAt t p c) (h' : CodeAt t p d) :
    c = d :=
  Option.some.inj (h.get_eq.symm.trans h'.get_eq)

/-- A plain character of code is followed by code. -/
theorem CodeAt.inCode_succ {t : Text} {p : Nat} {c : Char} (h : CodeAt t p c)
    (hc : isPlain c = true) : (readingAt t (p + 1)).InCode := by
  obtain ⟨hp, hget⟩ := List.getElem?_eq_some_iff.mp h.get_eq
  rw [readingAt_succ hp, hget]
  exact h.inCode.next_plain hc _

end SourceStamp
