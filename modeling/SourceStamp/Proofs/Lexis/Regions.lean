import Mathlib.Data.List.Infix
import SourceStamp.Proofs.Lexis.CodeText
import SourceStamp.Proofs.Lexis.Visits

/-!
# Texts built from code and regions

A source text may be put together from stretches of code that open nothing and from regions:
strings, templates, and comments of both kinds. The scan of such a text is known without scanning
it.

- `PlainCode`, `QuotedString`, `TemplateText`, `Interpolation`, `LineComment`, `BlockComment`: the
  parts, each with what keeps it from ending early.
- `Piece`: code or a region, and `Piece.states`: the states that a scan of it reports.
- `Reading.states_of_stays`: a stretch of text in which no character changes the state.
- `Piece.states_text`: a piece read from code reports its states and ends in code.
- `visits_source`: the visits of a whole source text.
-/

namespace SourceStamp

open Text (backslash backtick doubleQuote singleQuote)

/-! ## Pieces -/

/-- Wherever the delimiter stands in the text, a backslash stands right before it. -/
def OnlyEscaped (delimiter t : Text) : Prop :=
  ∀ i < t.length, delimiter <+: t.drop i → (t.take i).getLast? = some backslash

instance (delimiter t : Text) : Decidable (OnlyEscaped delimiter t) :=
  inferInstanceAs (Decidable (∀ i < t.length, _))

/-- Code that opens no region. -/
structure PlainCode where
  /-- The code. -/
  text : Text
  /-- No quote of any kind stands in it. -/
  noQuote : ∀ c ∈ text, c ≠ doubleQuote ∧ c ≠ singleQuote ∧ c ≠ backtick
  /-- No comment opens in it. -/
  noComment : ¬ ['/', '/'] <:+: text ∧ ¬ ['/', '*'] <:+: text
  /-- It does not end in the first half of a comment opener. -/
  noSlash : text.getLast? ≠ some '/'

/-- A string with its quotes. -/
structure QuotedString where
  /-- The quote at both ends. -/
  quote : Char
  /-- The text between them. -/
  body : Text
  /-- Strings have one of two quotes. -/
  isQuote : quote = doubleQuote ∨ quote = singleQuote
  /-- The quote stands in the text only right after a backslash. -/
  escaped : OnlyEscaped [quote] body
  /-- The quote at the end is not escaped. -/
  ends : body.getLast? ≠ some backslash

/-- A stretch of the text of a template. -/
structure TemplateText where
  /-- The text. -/
  text : Text
  /-- The closing quote stands in it only right after a backslash. -/
  escaped : OnlyEscaped [backtick] text
  /-- So does the opener of an interpolation. -/
  opensNothing : OnlyEscaped ['$', '{'] text
  /-- What comes after it is not escaped. -/
  ends : text.getLast? ≠ some backslash

/-- An expression that is interpolated in a template. -/
structure Interpolation where
  /-- The text of the expression. -/
  expression : Text
  /-- No brace closes the interpolation early. -/
  noBrace : '}' ∉ expression
  /-- No interpolation opens in it. -/
  opensNothing : ¬ ['$', '{'] <:+: expression

/-- A comment up to the end of its line. -/
structure LineComment where
  /-- The text between the slashes and the line feed. -/
  body : Text
  /-- It stands on one line. -/
  oneLine : '\n' ∉ body

/-- A comment with a closing delimiter. -/
structure BlockComment where
  /-- The text between the delimiters. -/
  body : Text
  /-- The closing delimiter does not stand in it. -/
  unclosed : ¬ ['*', '/'] <:+: body

/-- A part of a source text: code that opens nothing, or a region. -/
inductive Piece where
  | code (c : PlainCode)
  | string (s : QuotedString)
  /-- A template: a first stretch of text, then interpolations, each with the text after it. -/
  | template (first : TemplateText) (rest : List (Interpolation × TemplateText))
  | lineComment (c : LineComment)
  | blockComment (c : BlockComment)

namespace Piece

/-- The text of interpolations and the stretches after them. -/
def interpolated (rest : List (Interpolation × TemplateText)) : Text :=
  rest.flatMap fun (e, t) => '$' :: '{' :: (e.expression ++ '}' :: t.text)

/-- How a piece is written. -/
def text : Piece → Text
  | code c => c.text
  | string s => s.quote :: (s.body ++ [s.quote])
  | template first rest => backtick :: (first.text ++ interpolated rest ++ [backtick])
  | lineComment c => '/' :: '/' :: (c.body ++ ['\n'])
  | blockComment c => '/' :: '*' :: (c.body ++ ['*', '/'])

/-- Whether the piece is a region. -/
def isRegion : Piece → Bool
  | code _ => false
  | _ => true

/-- A state, once for each of `n` characters. -/
def stretch (s : LexicalState) (n : Nat) : List (Option LexicalState) := List.replicate n (some s)

/-- The states before the characters of interpolations and the stretches after them: the dollar sign
belongs to the template's text, the expression and its closing brace to the interpolation. -/
def interpolatedStates (rest : List (Interpolation × TemplateText)) :
    List (Option LexicalState) :=
  rest.flatMap fun (e, t) =>
    some (.template 0) :: none ::
      (stretch (.template 1) (e.expression.length + 1) ++ stretch (.template 0) t.text.length)

/-- The states before the characters of a piece. The second character of a delimiter has none. -/
def states : Piece → List (Option LexicalState)
  | code c => stretch .code c.text.length
  | string s => some .code :: stretch (.string s.quote) (s.body.length + 1)
  | template first rest =>
    some .code :: (stretch (.template 0) first.text.length ++ interpolatedStates rest ++
      stretch (.template 0) 1)
  | lineComment c => some .code :: none :: stretch .lineComment (c.body.length + 1)
  | blockComment c => some .code :: none :: (stretch .blockComment (c.body.length + 1) ++ [none])

/-- The source text that pieces make. -/
def source (pieces : List Piece) : Text := pieces.flatMap text

@[simp] theorem source_cons (piece : Piece) (pieces : List Piece) :
    source (piece :: pieces) = piece.text ++ source pieces := rfl

theorem source_append (pieces pieces' : List Piece) :
    source (pieces ++ pieces') = source pieces ++ source pieces' :=
  List.flatMap_append

end Piece

/-! ## Stretches that stay in one state -/

namespace Reading

/-- The state before each character of a text; the second one of a delimiter has none. -/
def states (following : Option Char) (r : Reading) : Text → List (Option LexicalState)
  | [] => []
  | c :: t =>
    (if r.halfway then none else some r.state) ::
      (r.next c (t.head?.or following)).states following t

@[simp] theorem states_cons (following : Option Char) (r : Reading) (c : Char) (t : Text) :
    r.states following (c :: t) =
      (if r.halfway then none else some r.state) ::
        (r.next c (t.head?.or following)).states following t := rfl

theorem states_append (following : Option Char) (r : Reading) (x y : Text) :
    r.states following (x ++ y) =
      r.states (y.head?.or following) x ++
        (r.read (y.head?.or following) x).states following y := by
  induction x generalizing r with
  | nil => rfl
  | cons c t ih =>
    rw [List.cons_append, states_cons, states_cons, ih, List.head?_append, Option.or_assoc]
    rfl

/-- A text in which no character changes the state is read in that state throughout. What stands
before the text is the character that the reading holds. -/
theorem states_of_stays {s : LexicalState} {following : Option Char} (t : Text) {r : Reading}
    (hs : r.state = s) (hh : r.halfway = false)
    (hstay : ∀ before c after, t = before ++ c :: after →
      s.move (before.getLast?.or r.previous == some backslash) c (after.head?.or following) =
        ⟨s, false⟩) :
    r.states following t = Piece.stretch s t.length ∧
      r.read following t = ⟨s, false, t.getLast?.or r.previous⟩ := by
  induction t generalizing r with
  | nil =>
    refine ⟨rfl, ?_⟩
    rw [read_nil, ← hs, ← hh]
    rfl
  | cons c t ih =>
    have hnext : r.next c (t.head?.or following) = ⟨s, false, some c⟩ := by
      rw [next_of_not_halfway hh, hs]
      have hmove := hstay [] c t rfl
      rw [List.getLast?_nil, Option.none_or] at hmove
      rw [hmove]
    have hrest : ∀ before d after, t = before ++ d :: after →
        s.move (before.getLast?.or (some c) == some backslash) d (after.head?.or following) =
          ⟨s, false⟩ := by
      rintro before d after rfl
      have hmove := hstay (c :: before) d after rfl
      rw [List.getLast?_cons] at hmove
      cases hlast : before.getLast? <;> simpa [hlast] using hmove
    obtain ⟨hstates, hread⟩ := ih (r := ⟨s, false, some c⟩) rfl rfl hrest
    rw [states_cons, read_cons, hnext, hstates, hread, hh, hs, List.getLast?_cons]
    exact ⟨rfl, by cases t.getLast? <;> rfl⟩

end Reading

/-- Where a delimiter stands, what stands before it ends in a backslash. -/
theorem OnlyEscaped.getLast?_eq {delimiter t before after : Text} (h : OnlyEscaped delimiter t)
    (hne : delimiter ≠ []) (ht : t = before ++ (delimiter ++ after)) :
    before.getLast? = some backslash := by
  have hlt : before.length < t.length := by
    have := List.length_pos_iff.mpr hne
    simp only [ht, List.length_append]
    omega
  have hescaped := h before.length hlt
  rw [ht, List.drop_left, List.take_left] at hescaped
  exact hescaped (List.prefix_append delimiter after)

/-! ## Code and regions, one by one -/

namespace Piece

theorem stretch_succ (s : LexicalState) (n : Nat) : stretch s (n + 1) = stretch s n ++ [some s] :=
  List.replicate_succ'

/-- Interpolations start with a dollar sign. -/
theorem head?_interpolated_ne (rest : List (Interpolation × TemplateText))
    {following : Option Char} (hf : following ≠ some '{') :
    (interpolated rest).head?.or following ≠ some '{' := by
  cases rest with
  | nil => exact hf
  | cons part rest => simp [interpolated]

end Piece

/-- Code that opens nothing is read as code. -/
theorem PlainCode.states_text (code : PlainCode) {r : Reading} (h : r.InCode)
    (following : Option Char) :
    r.states following code.text = Piece.stretch .code code.text.length ∧
      (r.read following code.text).InCode := by
  have hstay : ∀ before c after, code.text = before ++ c :: after →
      LexicalState.code.move (before.getLast?.or r.previous == some backslash) c
        (after.head?.or following) = ⟨.code, false⟩ := by
    intro before c after ht
    obtain ⟨hd, hs, hb⟩ := code.noQuote c (by simp [ht])
    -- a slash opens no comment, whether it stands inside the code or at its end
    have hopener : c = '/' → after.head?.or following ≠ some '/' ∧
        after.head?.or following ≠ some '*' := by
      rintro rfl
      cases after with
      | nil => exact absurd (by simp [ht]) code.noSlash
      | cons d after =>
        have hinfix : ['/', d] <:+: code.text := ⟨before, after, by simp [ht]⟩
        constructor
        · intro hd
          obtain rfl : d = '/' := by simpa using hd
          exact code.noComment.1 hinfix
        · intro hd
          obtain rfl : d = '*' := by simpa using hd
          exact code.noComment.2 hinfix
    have hline : ¬ (c = '/' ∧ after.head?.or following = some '/') := fun ⟨hc, hf⟩ =>
      (hopener hc).1 hf
    have hblock : ¬ (c = '/' ∧ after.head?.or following = some '*') := fun ⟨hc, hf⟩ =>
      (hopener hc).2 hf
    simp only [LexicalState.move, if_neg hline, if_neg hblock, hd, hs, hb, or_self, if_false]
  obtain ⟨hstates, hread⟩ := Reading.states_of_stays code.text h.state_eq h.halfway_eq hstay
  exact ⟨hstates, by rw [hread]; exact ⟨rfl, rfl⟩⟩

/-- A string is read as such up to its second quote. -/
theorem QuotedString.states_text (s : QuotedString) {r : Reading} (h : r.InCode)
    (following : Option Char) :
    r.states following (Piece.string s).text = (Piece.string s).states ∧
      (r.read following (Piece.string s).text).InCode := by
  have hopen : ∀ f, r.next s.quote f = ⟨.string s.quote, false, some s.quote⟩ := by
    intro f
    have hslash : s.quote ≠ '/' := by rcases s.isQuote with h | h <;> rw [h] <;> decide
    rw [Reading.next_of_not_halfway h.halfway_eq, h.state_eq]
    simp only [LexicalState.move, hslash, false_and, if_false, if_pos s.isQuote]
  have hstay : ∀ before c after, s.body = before ++ c :: after →
      (LexicalState.string s.quote).move (before.getLast?.or (some s.quote) == some backslash) c
        (after.head?.or (some s.quote)) = ⟨.string s.quote, false⟩ := by
    intro before c after ht
    by_cases hc : c = s.quote
    · -- a quote in the body is escaped
      have hlast := s.escaped.getLast?_eq (List.cons_ne_nil _ _) (hc ▸ ht)
      simp [LexicalState.move, hlast]
    · simp [LexicalState.move, hc]
  obtain ⟨hstates, hread⟩ := @Reading.states_of_stays (.string s.quote) (some s.quote) s.body
    ⟨.string s.quote, false, some s.quote⟩ rfl rfl hstay
  have hprev : (s.body.getLast?.or (some s.quote) == some backslash) = false := by
    have hquote : s.quote ≠ backslash := by rcases s.isQuote with h | h <;> rw [h] <;> decide
    have := s.ends
    cases hlast : s.body.getLast? <;> simp_all
  rw [Piece.text, Piece.states, Reading.states_cons, Reading.read_cons, hopen,
    Reading.states_append, Reading.read_append, List.head?_cons, Option.some_or, hstates, hread,
    h.halfway_eq, h.state_eq, Piece.stretch_succ]
  refine ⟨rfl, ?_⟩
  rw [Reading.read_cons, Reading.next_of_not_halfway rfl, hprev]
  constructor <;> simp [LexicalState.move]

/-- A comment opens with two characters. -/
theorem Reading.InCode.states_comment {r : Reading} (h : r.InCode) {s : LexicalState} {d : Char}
    (hopens : ∀ escaped, LexicalState.code.move escaped '/' (some d) = ⟨s, true⟩)
    (following : Option Char) (t : Text) :
    r.states following ('/' :: d :: t) =
        some .code :: none :: Reading.states following ⟨s, false, some d⟩ t ∧
      r.read following ('/' :: d :: t) = Reading.read following ⟨s, false, some d⟩ t := by
  have hopen : r.next '/' (some d) = ⟨s, true, some '/'⟩ := by
    rw [next_of_not_halfway h.halfway_eq, h.state_eq, hopens]
  rw [states_cons, read_cons, List.head?_cons, Option.some_or, hopen, states_cons, read_cons,
    next_of_halfway rfl, h.halfway_eq, h.state_eq]
  exact ⟨rfl, rfl⟩

/-- A comment of one line is read as such up to its line feed. -/
theorem LineComment.states_text (c : LineComment) {r : Reading} (h : r.InCode)
    (following : Option Char) :
    r.states following (Piece.lineComment c).text = (Piece.lineComment c).states ∧
      (r.read following (Piece.lineComment c).text).InCode := by
  have hstay : ∀ before d after, c.body = before ++ d :: after →
      LexicalState.lineComment.move (before.getLast?.or (some '/') == some backslash) d
        (after.head?.or (some '\n')) = ⟨.lineComment, false⟩ := by
    intro before d after ht
    refine if_neg ?_
    rintro rfl
    exact c.oneLine (by simp [ht])
  obtain ⟨hopen, hread⟩ := h.states_comment (s := .lineComment) (d := '/') (fun _ => rfl) following
    (c.body ++ ['\n'])
  obtain ⟨hstates, hbody⟩ := @Reading.states_of_stays .lineComment (some '\n') c.body
    ⟨.lineComment, false, some '/'⟩ rfl rfl hstay
  rw [Piece.text, Piece.states, hopen, hread, Reading.states_append, Reading.read_append,
    List.head?_cons, Option.some_or, hstates, hbody, Piece.stretch_succ]
  exact ⟨rfl, rfl, rfl⟩

/-- A comment with a closing delimiter is read as such up to that delimiter. -/
theorem BlockComment.states_text (c : BlockComment) {r : Reading} (h : r.InCode)
    (following : Option Char) :
    r.states following (Piece.blockComment c).text = (Piece.blockComment c).states ∧
      (r.read following (Piece.blockComment c).text).InCode := by
  have hstay : ∀ before d after, c.body = before ++ d :: after →
      LexicalState.blockComment.move (before.getLast?.or (some '*') == some backslash) d
        (after.head?.or (some '*')) = ⟨.blockComment, false⟩ := by
    intro before d after ht
    refine if_neg ?_
    rintro ⟨rfl, hf⟩
    cases after with
    | nil => cases hf
    | cons e after =>
      obtain rfl : e = '/' := by simpa using hf
      exact c.unclosed ⟨before, after, by simp [ht]⟩
  obtain ⟨hopen, hread⟩ := h.states_comment (s := .blockComment) (d := '*') (fun _ => rfl) following
    (c.body ++ ['*', '/'])
  obtain ⟨hstates, hbody⟩ := @Reading.states_of_stays .blockComment (some '*') c.body
    ⟨.blockComment, false, some '*'⟩ rfl rfl hstay
  rw [Piece.text, Piece.states, hopen, hread, Reading.states_append, Reading.read_append,
    List.head?_cons, Option.some_or, hstates, hbody, Piece.stretch_succ, List.append_assoc]
  exact ⟨rfl, rfl, rfl⟩

/-! ## Templates -/

namespace Reading

/-- The reader is in the text of a template, and the next character is not escaped. -/
structure InTemplateText (r : Reading) : Prop where
  state_eq : r.state = .template 0
  halfway_eq : r.halfway = false
  previous_ne : r.previous ≠ some backslash

variable {r : Reading}

/-- A stretch of the text of a template leads to its end. What follows may open an interpolation,
but does not complete the opener of one. -/
theorem InTemplateText.states_text (h : r.InTemplateText) (t : TemplateText)
    {following : Option Char} (hf : following ≠ some '{') :
    r.states following t.text = Piece.stretch (.template 0) t.text.length ∧
      (r.read following t.text).InTemplateText := by
  have hstay : ∀ before c after, t.text = before ++ c :: after →
      (LexicalState.template 0).move (before.getLast?.or r.previous == some backslash) c
        (after.head?.or following) = ⟨.template 0, false⟩ := by
    intro before c after ht
    -- what would open an interpolation or end the template is escaped
    have hopener : c = '$' → after.head?.or following = some '{' →
        before.getLast? = some backslash := by
      rintro rfl hbrace
      cases after with
      | nil => exact absurd hbrace hf
      | cons d after =>
        obtain rfl : d = '{' := by simpa using hbrace
        exact t.opensNothing.getLast?_eq (List.cons_ne_nil _ _) ht
    have hquote : c = backtick → before.getLast? = some backslash := by
      rintro rfl
      exact t.escaped.getLast?_eq (List.cons_ne_nil _ _) ht
    by_cases hlast : before.getLast? = some backslash
    · simp [LexicalState.move, hlast]
    · have hopens : ¬ (c = '$' ∧ after.head?.or following = some '{') := fun hopen =>
        hlast (hopener hopen.1 hopen.2)
      have hcloses : c ≠ backtick := fun hc => hlast (hquote hc)
      simp only [LexicalState.move, ← and_assoc, hopens, hcloses, false_and, if_false]
  obtain ⟨hstates, hread⟩ := states_of_stays t.text h.state_eq h.halfway_eq hstay
  refine ⟨hstates, ?_⟩
  rw [hread]
  refine ⟨rfl, rfl, ?_⟩
  have hends := t.ends
  have hprevious := h.previous_ne
  cases hlast : t.text.getLast? <;> simp_all

/-- An interpolation leads back to the text of the template. -/
theorem InTemplateText.states_interpolation (h : r.InTemplateText) (e : Interpolation)
    (following : Option Char) :
    r.states following ('$' :: '{' :: (e.expression ++ ['}'])) =
        some (.template 0) :: none :: Piece.stretch (.template 1) (e.expression.length + 1) ∧
      (r.read following ('$' :: '{' :: (e.expression ++ ['}']))).InTemplateText := by
  have hprev : (r.previous == some backslash) = false := by simpa using h.previous_ne
  have hopen : r.next '$' (some '{') = ⟨.template 1, true, some '$'⟩ := by
    rw [next_of_not_halfway h.halfway_eq, h.state_eq, hprev]
    rfl
  have hstay : ∀ before c after, e.expression = before ++ c :: after →
      (LexicalState.template 1).move (before.getLast?.or (some '{') == some backslash) c
        (after.head?.or (some '}')) = ⟨.template 1, false⟩ := by
    intro before c after ht
    have hopens : ¬ (c = '$' ∧ after.head?.or (some '}') = some '{') := by
      rintro ⟨rfl, hb⟩
      cases after with
      | nil => cases hb
      | cons d after =>
        obtain rfl : d = '{' := by simpa using hb
        exact e.opensNothing ⟨before, after, by simp [ht]⟩
    have hcloses : c ≠ '}' := by
      rintro rfl
      exact e.noBrace (by simp [ht])
    simp only [LexicalState.move, ← and_assoc, hopens, hcloses, false_and, if_false]
  obtain ⟨hstates, hread⟩ := @states_of_stays (.template 1) (some '}') e.expression
    ⟨.template 1, false, some '{'⟩ rfl rfl hstay
  rw [states_cons, read_cons, List.head?_cons, Option.some_or, hopen, states_cons, read_cons,
    next_of_halfway rfl, states_append, read_append, List.head?_cons, Option.some_or, hstates,
    hread, h.halfway_eq, h.state_eq, Piece.stretch_succ]
  refine ⟨rfl, ?_⟩
  rw [read_cons, next_of_not_halfway rfl]
  exact ⟨by simp [LexicalState.move], by simp [LexicalState.move], fun hc => by cases hc⟩

/-- So do any number of interpolations, each with the text after it. -/
theorem InTemplateText.states_interpolated (h : r.InTemplateText)
    (rest : List (Interpolation × TemplateText)) {following : Option Char}
    (hf : following ≠ some '{') :
    r.states following (Piece.interpolated rest) = Piece.interpolatedStates rest ∧
      (r.read following (Piece.interpolated rest)).InTemplateText := by
  induction rest generalizing r with
  | nil => exact ⟨rfl, h⟩
  | cons part rest ih =>
    obtain ⟨e, t⟩ := part
    have htext : Piece.interpolated ((e, t) :: rest) =
        '$' :: '{' :: (e.expression ++ ['}']) ++ (t.text ++ Piece.interpolated rest) := by
      simp [Piece.interpolated]
    obtain ⟨hstates, hread⟩ :=
      h.states_interpolation e ((t.text ++ Piece.interpolated rest).head?.or following)
    obtain ⟨htextStates, htextRead⟩ := hread.states_text t (Piece.head?_interpolated_ne rest hf)
    obtain ⟨hrestStates, hrestRead⟩ := ih htextRead
    rw [htext, states_append, read_append, hstates, states_append, read_append, htextStates,
      hrestStates]
    exact ⟨by simp [Piece.interpolatedStates], hrestRead⟩

/-- All that stands between the quotes of a template. -/
theorem InTemplateText.states_body (h : r.InTemplateText) (first : TemplateText)
    (rest : List (Interpolation × TemplateText)) {following : Option Char}
    (hf : following ≠ some '{') :
    r.states following (first.text ++ Piece.interpolated rest) =
        Piece.stretch (.template 0) first.text.length ++ Piece.interpolatedStates rest ∧
      (r.read following (first.text ++ Piece.interpolated rest)).InTemplateText := by
  obtain ⟨hfirst, hread⟩ := h.states_text first (Piece.head?_interpolated_ne rest hf)
  obtain ⟨hrest, hrestRead⟩ := hread.states_interpolated rest hf
  rw [states_append, read_append, hfirst, hrest]
  exact ⟨rfl, hrestRead⟩

/-- The closing quote of a template, where it is not escaped, leads back to code. -/
theorem InTemplateText.next_backtick (h : r.InTemplateText) (following : Option Char) :
    (r.next backtick following).InCode := by
  have hprev : (r.previous == some backslash) = false := by simpa using h.previous_ne
  have hdollar : backtick ≠ '$' := by decide
  rw [next_of_not_halfway h.halfway_eq, h.state_eq, hprev]
  constructor <;> simp [LexicalState.move, hdollar]

end Reading

/-- A template is read as such up to its second quote, with its interpolations at depth one. -/
theorem Piece.states_template (first : TemplateText) (rest : List (Interpolation × TemplateText))
    {r : Reading} (h : r.InCode) (following : Option Char) :
    r.states following (Piece.template first rest).text = (Piece.template first rest).states ∧
      (r.read following (Piece.template first rest).text).InCode := by
  have hbrace : some backtick ≠ some '{' := by decide
  have hopen : ∀ f, r.next backtick f = ⟨.template 0, false, some backtick⟩ := by
    intro f
    rw [Reading.next_of_not_halfway h.halfway_eq, h.state_eq]
    rfl
  have hin : Reading.InTemplateText ⟨.template 0, false, some backtick⟩ :=
    ⟨rfl, rfl, by decide⟩
  obtain ⟨hbody, hread⟩ := hin.states_body first rest hbrace
  rw [text, states, Reading.states_cons, Reading.read_cons, hopen, Reading.states_append,
    Reading.read_append _ _ _ [backtick], List.head?_cons, Option.some_or, hbody,
    Reading.states_cons, hread.halfway_eq, hread.state_eq, h.halfway_eq, h.state_eq]
  exact ⟨rfl, hread.next_backtick following⟩

/-! ## Whole texts -/

namespace Piece

/-- Read from code, a piece shows its states and leads back to code. -/
theorem states_text (piece : Piece) {r : Reading} (h : r.InCode) (following : Option Char) :
    r.states following piece.text = piece.states ∧ (r.read following piece.text).InCode := by
  cases piece with
  | code c => exact c.states_text h following
  | string s => exact s.states_text h following
  | template first rest => exact states_template first rest h following
  | lineComment c => exact c.states_text h following
  | blockComment c => exact c.states_text h following

theorem states_source (pieces : List Piece) {r : Reading} (h : r.InCode)
    (following : Option Char) :
    r.states following (source pieces) = pieces.flatMap states ∧
      (r.read following (source pieces)).InCode := by
  induction pieces generalizing r with
  | nil => exact ⟨rfl, h⟩
  | cons piece pieces ih =>
    obtain ⟨hstates, hread⟩ := piece.states_text h ((source pieces).head?.or following)
    obtain ⟨hrest, hrestRead⟩ := ih hread
    rw [source_cons, Reading.states_append, Reading.read_append, hstates, hrest,
      List.flatMap_cons]
    exact ⟨rfl, hrestRead⟩

end Piece

/-- The offsets that have a state, with their states, the first offset being `position`. -/
def reported (position : Nat) : List (Option LexicalState) → List (Nat × LexicalState)
  | [] => []
  | none :: rest => reported (position + 1) rest
  | some s :: rest => (position, s) :: reported (position + 1) rest

/-- A scan reports the states of its text. -/
theorem Reading.visits_states (r : Reading) (position : Nat) (t : Text) :
    (r.visits position t).map (fun v => (v.position, v.state)) =
      reported position (r.states none t) := by
  induction t generalizing r position with
  | nil => rfl
  | cons c t ih =>
    rw [states_cons, Option.or_none]
    cases hh : r.halfway with
    | true =>
      rw [visits_of_halfway hh, ih, if_pos rfl]
      rfl
    | false =>
      rw [visits_of_not_halfway hh, List.map_cons, ih, if_neg Bool.false_ne_true]
      rfl

/-- **Scans of texts built from pieces**: a scan reports the state that each piece has there. -/
theorem Piece.visits_source (pieces : List Piece) :
    (Scanner.start (source pieces)).visits.map (fun v => (v.position, v.state)) =
      reported 0 (pieces.flatMap states) := by
  rw [Scanner.visits_eq, ← (states_source pieces Reading.start_inCode none).1]
  exact Reading.visits_states Reading.start 0 (source pieces)

/-- A template whose text holds an escaped quote after an interpolation. -/
example : (Piece.template ⟨"a".toList, by decide, by decide, by decide⟩
    [(⟨"b".toList, by decide, by decide⟩,
      ⟨[backslash, backtick], by decide, by decide, by decide⟩)]).states =
    [some .code, some (.template 0), some (.template 0), none, some (.template 1),
      some (.template 1), some (.template 0), some (.template 0), some (.template 0)] := rfl

end SourceStamp
