import SourceStamp.Proofs.Stack.Forms

/-!
# Written frames

A frame that is written in one of the forms is read back, as long as its path does not look like the
mark of another form:

- `Frame.parse_unmarked`: in the at-sign form and in the bare form no at sign may stand in the path
  before its last character. In a bare line it is the mark of the at-sign form, which is tried first.
- `Frame.parse_anonymous`: in the keyword form without a function no opening parenthesis may stand in
  the path after a blank. What comes before it is taken for a function.

Whatever else the path holds, its line and column are the last two numbers of the text.
-/

namespace SourceStamp
namespace Frame

open Text (isBlank isDecimal)

/-- A path with its line and column. -/
def written (path : Text) (line column : Nat) : Text :=
  path ++ numbers (Text.ofNat line) (Text.ofNat column) []

/-! ## Numbers -/

theorem value_ofNat (n : Nat) : value (Text.ofNat n) = n := by
  have hascii := Text.mapM_digit? fun c => Text.isDigit_of_mem_ofNat (n := n)
  have hread := (Text.mapM_digit?_of_isDecimal (isDigits_ofNat n).2).1
  rw [value, Option.some.inj (hread.symm.trans hascii), Text.valueOfDigits_ofNat]

theorem isShort_ofNat {n : Nat} (h : Text.isWritable n = true) : IsShort (Text.ofNat n) := by
  rwa [Text.isWritable, decide_eq_true_eq, Int.natAbs_natCast] at h

/-- The numbers of the text are all that it has in common with other places. -/
theorem mem_numbers {line column : Nat} {c : Char}
    (h : c ∈ numbers (Text.ofNat line) (Text.ofNat column) []) : c = ':' ∨ isDecimal c = true := by
  have hdigits : ∀ n, c ∈ Text.ofNat n → isDecimal c = true := fun n => (isDigits_ofNat n).2 c
  simp only [numbers, List.append_nil, List.cons_append, List.mem_cons, List.mem_append] at h
  rcases h with h | h | h | h
  · exact .inl h
  · exact .inr (hdigits line h)
  · exact .inl h
  · exact .inr (hdigits column h)

theorem notMem_numbers {line column : Nat} {c : Char} (hcolon : c ≠ ':')
    (hdecimal : isDecimal c = false) : c ∉ numbers (Text.ofNat line) (Text.ofNat column) [] := by
  intro h
  rcases mem_numbers h with rfl | h
  · exact hcolon rfl
  · rw [hdecimal] at h
    cases h

section Written

variable {path : Text} {line column : Nat}

theorem isLine_written (h : IsLine path) : IsLine (written path line column) := by
  refine isLine_append.mpr ⟨h, fun c hc => ?_⟩
  constructor <;> (rintro rfl; exact notMem_numbers (by decide) (by decide) hc)

/-- Blanks in the path are kept, unless the line starts with one. -/
theorem strip_written {start : Text} (h : (start ++ path).head?.any isBlank = false) :
    Text.strip (start ++ written path line column) = start ++ written path line column := by
  have hassoc : start ++ written path line column =
      start ++ path ++ numbers (Text.ofNat line) (Text.ofNat column) [] :=
    (List.append_assoc _ _ _).symm
  rw [hassoc]
  refine Text.strip_eq_self_iff.mpr ⟨Text.stripStart_eq_self_iff.mpr ?_,
    Text.dropEndWhile_eq_self_iff.mpr fun hne => ?_⟩
  · cases hstart : start ++ path with
    | nil =>
      show isBlank ':' = false
      decide
    | cons c r => rwa [hstart] at h
  · have hnumbers : numbers (Text.ofNat line) (Text.ofNat column) [] ≠ [] := List.cons_ne_nil _ _
    rw [List.getLast_append_of_ne_nil _ hnumbers]
    rcases mem_numbers (List.getLast_mem hnumbers) with hlast | hlast
    · rw [hlast]
      decide
    · exact Text.isBlank_of_isDigitLike (Text.isDigitLike_of_isDecimal hlast)

/-- A line of known form is read, if its numbers can be written. -/
theorem parse_of_form? {t : Text} {name : Option Text} {column : Option Nat}
    (hform : form? t = some (name, some ⟨path, Text.ofNat line, column.map Text.ofNat⟩))
    (hline : Text.isWritable line = true) (hcolumn : ∀ n ∈ column, Text.isWritable n = true) :
    parse t = .ok (some ⟨name, some path, some line, column⟩) := by
  have hshort : ∀ d ∈ numerals t, IsShort d := by
    rw [numerals, hform]
    refine List.forall_mem_cons.mpr ⟨isShort_ofNat hline, fun d hd => ?_⟩
    obtain ⟨n, hn, rfl⟩ := Option.map_eq_some_iff.mp (Option.mem_toList.mp hd)
    exact isShort_ofNat (hcolumn n hn)
  have hvalue : (column.map Text.ofNat).map value = column := by
    cases column with
    | none => rfl
    | some n => exact congrArg some (value_ofNat n)
  have hshown : shown? t = some ⟨name, some path, some line, column⟩ := by
    rw [shown?, hform]
    show some (ofValues name (some ⟨path, Text.ofNat line, column.map Text.ofNat⟩)) = _
    simp only [ofValues, Option.map_some, Option.bind_some, value_ofNat, hvalue]
  rw [(reads_parse t).ok hshort, hshown]

/-! ## The at-sign form and the bare form -/

/-- The line is one of the keyword form, or comes to be one when more text follows: after blanks it
starts with the word `at`, with a blank or with nothing after it. -/
def HasKeyword (t : Text) : Prop :=
  ∃ r, Text.stripStart t = 'a' :: 't' :: r ∧ r.head?.all isBlank = true

theorem keywordForm?_eq_none {t : Text} (h : ¬ HasKeyword t) : keywordForm? t = none := by
  rw [keywordForm?]
  split
  · next r hr =>
    cases r with
    | nil => rfl
    | cons b r =>
      have hb : isBlank b = false := Bool.eq_false_iff.mpr fun hb => h ⟨_, hr, hb⟩
      rw [afterBlanks?, hb]
      rfl
  · rfl

theorem bareForm?_written (hne : path ≠ []) (hpath : '\n' ∉ path) :
    bareForm? (written path line column) =
      some ⟨path, Text.ofNat line, some (Text.ofNat column)⟩ := by
  refine location?_append
    (strictNumbers?_numbers (isDigits_ofNat line) (isDigits_ofNat column)) ?_ hne hpath
  intro t ht _
  rw [Option.eq_none_iff_forall_ne_some]
  rintro ⟨line', column'⟩ h
  have hloose := (looseNumbers?_of_strictNumbers? h).1
  rw [looseNumbers?_append_numbers ht] at hloose
  cases hloose

/-- Two numbers at the end of a written path are its line and column. -/
theorem eq_of_written {start rest line' : Text} {column' : Option Text}
    (h : written path line column = start ++ rest)
    (hnumbers : strictNumbers? rest = some (line', column')) : path = start := by
  obtain ⟨hloose, hboth⟩ := looseNumbers?_of_strictNumbers? hnumbers
  obtain ⟨hhead, hcount⟩ := colons_of_looseNumbers? hloose
  have hclose : isClosed [] = true := rfl
  obtain ⟨-, hcount'⟩ := colons_of_looseNumbers?
    (looseNumbers?_numbers (isDigits_ofNat line) (isDigits_ofNat column) hclose)
  obtain ⟨digits, rfl⟩ := Option.isSome_iff_exists.mp hboth
  have hsame := eq_of_count_colon h rfl hhead (hcount'.trans hcount.symm)
  rw [written, ← hsame] at h
  exact List.append_cancel_right h

/-- At an at sign a written path is cut in two. -/
theorem eq_of_atSignForm?_written {name : Text} {l : Location}
    (h : atSignForm? (written path line column) = some (name, l)) :
    path = name ++ '@' :: l.path ∧ l.path ≠ [] := by
  obtain ⟨hne, rest, heq, hnumbers⟩ := exists_of_atSignForm? h
  have hcut : written path line column = (name ++ '@' :: l.path) ++ rest := by
    rw [heq, List.append_assoc, List.cons_append]
  exact ⟨eq_of_written hcut hnumbers, hne⟩

theorem atSignForm?_written (hsign : '@' ∉ path.dropLast) :
    atSignForm? (written path line column) = none := by
  rw [Option.eq_none_iff_forall_ne_some]
  rintro ⟨name, l⟩ h
  obtain ⟨hpath, hne⟩ := eq_of_atSignForm?_written h
  rw [hpath, List.dropLast_append_of_ne_nil (List.cons_ne_nil _ _),
    List.dropLast_cons_of_ne_nil hne] at hsign
  exact hsign (List.mem_append_right _ List.mem_cons_self)

/-- A function without an at sign ends at the first one, if no later one fits. -/
theorem atSignForm?_append {name rest : Text} {l : Location} (hname : '\n' ∉ name)
    (hsign : '@' ∉ name) (hlater : atSignForm? rest = none) (hbare : bareForm? rest = some l) :
    atSignForm? (name ++ '@' :: rest) = some (name, l) := by
  induction name with
  | nil => simp only [List.nil_append, atSignForm?, hlater, hbare, if_true, Option.map_some,
      Option.map_none, ite_self, Option.none_or]
  | cons c name ih =>
    rw [List.mem_cons, not_or] at hname hsign
    rw [List.cons_append, atSignForm?]
    simp only [if_neg (Ne.symm hname.1), ih hname.2 hsign.2, Option.map_some, Option.some_or]

/-- An at sign that a place follows makes a line one of the at-sign form. -/
theorem exists_atSignForm? {start rest : Text} {l : Location} (hstart : '\n' ∉ start)
    (hbare : bareForm? rest = some l) :
    ∃ name l', atSignForm? (start ++ '@' :: rest) = some (name, l') := by
  induction start with
  | nil =>
    rw [List.nil_append, atSignForm?]
    cases atSignForm? rest with
    | none => exact ⟨[], l, by simp [hbare]⟩
    | some form => exact ⟨'@' :: form.1, form.2, by simp⟩
  | cons c start ih =>
    rw [List.mem_cons, not_or] at hstart
    obtain ⟨name, l', h⟩ := ih hstart.2
    refine ⟨c :: name, l', ?_⟩
    rw [List.cons_append, atSignForm?]
    simp only [if_neg (Ne.symm hstart.1), h, Option.map_some, Option.some_or]

theorem exists_eq_append_of_mem_dropLast {c : Char} {t : Text} (h : c ∈ t.dropLast) :
    ∃ start rest, t = start ++ c :: rest ∧ rest ≠ [] := by
  obtain ⟨start, rest, hcut⟩ := List.append_of_mem h
  have hne : t ≠ [] := by
    rintro rfl
    cases h
  refine ⟨start, rest ++ [t.getLast hne], ?_, List.append_ne_nil_of_right_ne_nil _ (by simp)⟩
  rw [← List.cons_append, ← List.append_assoc, ← hcut, List.dropLast_append_getLast]

/-- An at sign in the path, but for one at its end, makes a bare line one of the at-sign form. -/
theorem exists_atSignForm?_written (hpath : IsLine path) (hsign : '@' ∈ path.dropLast) :
    ∃ name l, atSignForm? (written path line column) = some (name, l) := by
  obtain ⟨start, rest, rfl, hrest⟩ := exists_eq_append_of_mem_dropLast hsign
  rw [isLine_append, isLine_cons] at hpath
  rw [written, List.append_assoc, List.cons_append]
  exact exists_atSignForm? hpath.1.notMem (bareForm?_written hrest hpath.2.2.notMem)

theorem form?_written (hpath : IsLine path) (hstart : path.head?.any isBlank = false)
    (hkeyword : ¬ HasKeyword (written path line column)) :
    form? (written path line column) = unmarkedForm? (written path line column) := by
  have hstrip : Text.strip ([] ++ written path line column) = [] ++ written path line column :=
    strip_written hstart
  rw [form?_eq (isLine_written hpath), keywordForm?_eq_none hkeyword, Option.none_or]
  exact congrArg unmarkedForm? hstrip

theorem form?_atSign_written {name : Text} (hne : path ≠ []) (hpath : IsLine path)
    (hname : IsLine name) (hsign : '@' ∉ name) (hstart : name.head?.any isBlank = false)
    (hscoped : '@' ∉ path.dropLast)
    (hkeyword : ¬ HasKeyword (name ++ '@' :: written path line column)) :
    form? (name ++ '@' :: written path line column) =
      some (if name.isEmpty then none else some name,
        some ⟨path, Text.ofNat line, some (Text.ofNat column)⟩) := by
  have hline : IsLine (name ++ '@' :: written path line column) :=
    isLine_append.mpr ⟨hname, isLine_cons.mpr ⟨by decide, isLine_written hpath⟩⟩
  have hhead : ((name ++ ['@']) ++ path).head?.any isBlank = false := by
    cases name with
    | nil =>
      show isBlank '@' = false
      decide
    | cons c name => exact hstart
  have hstrip : Text.strip ((name ++ ['@']) ++ written path line column) =
      (name ++ ['@']) ++ written path line column := strip_written hhead
  rw [List.append_assoc, List.singleton_append] at hstrip
  have hbare : bareForm? (written path line column) =
      some ⟨path, Text.ofNat line, some (Text.ofNat column)⟩ := bareForm?_written hne hpath.notMem
  have hat := atSignForm?_append hname.notMem hsign (atSignForm?_written hscoped) hbare
  rw [form?_eq hline, keywordForm?_eq_none hkeyword, Option.none_or, hstrip, unmarkedForm?, hat]
  rfl

/-- **Frames of the two unmarked forms are read back.** In the at-sign form the path holds no at
sign, but perhaps as its last character; what comes before the sign is the function. A bare line is
read as a path with its numbers exactly when no at sign in the path makes it a line of the at-sign
form. -/
theorem parse_unmarked (hne : path ≠ []) (hpath : IsLine path)
    (hline : Text.isWritable line = true) (hcolumn : Text.isWritable column = true) :
    (∀ name, IsLine name → '@' ∉ name → name.head?.any isBlank = false → '@' ∉ path.dropLast →
      ¬ HasKeyword (name ++ '@' :: written path line column) →
      parse (name ++ '@' :: written path line column) =
        .ok (some ⟨if name.isEmpty then none else some name, some path, some line,
          some column⟩)) ∧
    (path.head?.any isBlank = false → ¬ HasKeyword (written path line column) →
      (parse (written path line column) =
          .ok (some ⟨none, some path, some line, some column⟩) ↔
        '@' ∉ path.dropLast)) := by
  have hcolumn' : ∀ n ∈ some column, Text.isWritable n = true := by
    rintro n ⟨⟩
    exact hcolumn
  refine ⟨?_, ?_⟩
  · intro name hname hsign hstart hscoped hkeyword
    exact parse_of_form? (form?_atSign_written hne hpath hname hsign hstart hscoped hkeyword) hline
      hcolumn'
  · intro hstart hkeyword
    have hform := form?_written hpath hstart hkeyword
    constructor
    · intro h hsign
      -- the path that is read would be the whole path, but it stands after an at sign in it
      have hexists : ∃ name l, atSignForm? (written path line column) = some (name, l) :=
        exists_atSignForm?_written hpath hsign
      obtain ⟨name, l, hat⟩ := hexists
      have hshown := shown?_of_parse h
      rw [shown?, hform, unmarkedForm?, hat] at hshown
      have hsame : l.path = path := by
        have hfile := congrArg (fun f : Option Frame => f.bind (·.filePath)) hshown
        simpa [ofValues] using hfile
      have hlength := congrArg List.length (eq_of_atSignForm?_written hat).1
      rw [hsame, List.length_append, List.length_cons] at hlength
      omega
    · intro hsign
      refine parse_of_form? ?_ hline hcolumn'
      rw [hform, unmarkedForm?, atSignForm?_written hsign, bareForm?_written hne hpath.notMem]
      rfl

end Written

/-- A path that looks like a place of the keyword form, with an at sign at its end. -/
def oddPath : Text := "f (b:1:2@".toList

theorem parse_unmarked_oddPath :
    parse ("at".toList ++ '@' :: written oddPath 7 8) =
        .ok (some ⟨some "at".toList, some oddPath, some 7, some 8⟩) ∧
      parse (written oddPath 7 8) = .ok (some ⟨none, some oddPath, some 7, some 8⟩) := by
  obtain ⟨hat, hbare⟩ := @parse_unmarked oddPath 7 8 (by decide) (by decide) (by decide) (by decide)
  have hkeyword : ¬ HasKeyword ("at".toList ++ '@' :: written oddPath 7 8) := by
    rintro ⟨r, hr, hblank⟩
    cases hr
    cases hblank
  have hkeyword' : ¬ HasKeyword (written oddPath 7 8) := by
    rintro ⟨r, hr, -⟩
    cases hr
  exact ⟨hat _ (by decide) (by decide) (by decide) (by decide) hkeyword,
    (hbare (by decide) hkeyword').mpr (by decide)⟩

/-- A path with the directory of a scoped package. -/
def scopedPath : Text := "a/@b.ts".toList

/-- The path of a scoped package is read back in neither form: its at sign ends the function. -/
theorem parse_unmarked_scoped :
    (IsLine scopedPath ∧ scopedPath.head?.any isBlank = false ∧
      ¬ HasKeyword ('g' :: '@' :: written scopedPath 1 2) ∧
      ¬ HasKeyword (written scopedPath 1 2)) ∧
    parse ('g' :: '@' :: written scopedPath 1 2) ≠
      .ok (some ⟨some ['g'], some scopedPath, some 1, some 2⟩) ∧
    parse (written scopedPath 1 2) ≠ .ok (some ⟨none, some scopedPath, some 1, some 2⟩) := by
  have hkeyword : ¬ HasKeyword ('g' :: '@' :: written scopedPath 1 2) := by
    rintro ⟨r, hr, -⟩
    cases hr
  have hkeyword' : ¬ HasKeyword (written scopedPath 1 2) := by
    rintro ⟨r, hr, -⟩
    cases hr
  have hat : parse ('g' :: '@' :: written scopedPath 1 2) =
      .ok (some ⟨some ['g', '@', 'a', '/'], some "b.ts".toList, some 1, some 2⟩) := rfl
  have hbare : parse (written scopedPath 1 2) =
      .ok (some ⟨some "a/".toList, some "b.ts".toList, some 1, some 2⟩) := rfl
  refine ⟨⟨by decide, by decide, hkeyword, hkeyword'⟩, ?_, ?_⟩
  · rw [hat]
    simp
  · rw [hbare]
    simp

/-! ## The keyword form without a function -/

/-- An opening parenthesis stands in the text after a blank. -/
def HasOpening (t : Text) : Prop := ∃ b, isBlank b = true ∧ [b, '('] <:+: t

section Anonymous

variable {path : Text} {line column : Nat}

/-- The numbers hold no opening parenthesis, so one in a written path stands in the path. -/
theorem exists_eq_append_of_written {start u : Text}
    (h : written path line column = start ++ '(' :: u) :
    ∃ rest, path = start ++ '(' :: rest ∧ u = written rest line column := by
  have hnumbers : '(' ∉ numbers (Text.ofNat line) (Text.ofNat column) [] :=
    notMem_numbers (by decide) (by decide)
  rcases List.append_eq_append_iff.mp h with ⟨m, -, hm⟩ | ⟨m, hpath, hm⟩
  · exact absurd (hm ▸ List.mem_append_right m List.mem_cons_self) hnumbers
  · cases m with
    | nil =>
      rw [List.nil_append] at hm
      exact absurd (hm ▸ List.mem_cons_self) hnumbers
    | cons c m =>
      cases hm
      exact ⟨m, hpath, rfl⟩

/-- The place that a path with its line and column is. Of numbers alone the first one counts as the
path. -/
def writtenPlace (path : Text) (line column : Nat) : Location :=
  if path = [] then ⟨':' :: Text.ofNat line, Text.ofNat column, none⟩
  else ⟨path, Text.ofNat line, some (Text.ofNat column)⟩

/-- Numbers alone. -/
theorem location?_numbers_alone :
    location? looseNumbers? (written [] line column) =
      some ⟨':' :: Text.ofNat line, Text.ofNat column, none⟩ := by
  have hcolumn : looseNumbers? (':' :: Text.ofNat column) = some (Text.ofNat column, none) := by
    have hread : colonDigits? (':' :: Text.ofNat column ++ []) = some (Text.ofNat column, []) :=
      colonDigits?_append (isDigits_ofNat column) rfl
    rw [List.append_nil] at hread
    rw [looseNumbers?, hread]
    rfl
  have hlater : ∀ t, t ≠ [] → t <:+ (':' :: Text.ofNat line).tail →
      looseNumbers? (t ++ ':' :: Text.ofNat column) = none := by
    intro t ht hsuffix
    rw [Option.eq_none_iff_forall_ne_some]
    rintro ⟨line', column'⟩ h
    -- the text starts with a digit of the line
    obtain ⟨c, r, rfl⟩ := List.exists_cons_of_ne_nil ht
    have hc : isDecimal c = true := (isDigits_ofNat line).2 c (hsuffix.mem List.mem_cons_self)
    cases (colons_of_looseNumbers? h).1
    exact absurd hc (by decide)
  have hnewline : '\n' ∉ ':' :: Text.ofNat line := by
    rw [List.mem_cons, not_or]
    exact ⟨by decide, (isDigits_ofNat line).notMem (by decide)⟩
  have hsplit : written [] line column = ':' :: Text.ofNat line ++ ':' :: Text.ofNat column := by
    simp only [written, numbers, List.nil_append, List.append_nil]
  rw [hsplit, location?_append hcolumn hlater (List.cons_ne_nil _ _) hnewline]

theorem place?_written (hpath : '\n' ∉ path) :
    place? (written path line column) = some (some (writtenPlace path line column)) := by
  have hclose : isClosed [] = true := rfl
  rw [place?, writtenPlace]
  by_cases hne : path = []
  · rw [hne, location?_numbers_alone, if_pos rfl]
  · rw [written, location?_numbers (isDigits_ofNat line) (isDigits_ofNat column) hclose hne hpath,
      if_neg hne]

/-- A function is found before an opening parenthesis after a blank, if not before an earlier one. -/
theorem exists_namedPlace? {start u : Text} {b : Char} (hne : start ≠ []) (hstart : '\n' ∉ start)
    (hb : isBlank b = true) (hplace : ∃ l, place? u = some l) :
    ∃ name l, namedPlace? (start ++ b :: '(' :: u) = some (name, l) := by
  induction start with
  | nil => exact absurd rfl hne
  | cons c start ih =>
    rw [List.mem_cons, not_or] at hstart
    rw [List.cons_append, namedPlace?, if_neg (Ne.symm hstart.1)]
    cases hhere : (afterOpening? (start ++ b :: '(' :: u)).bind place? with
    | some l => exact ⟨[c], l, rfl⟩
    | none =>
      by_cases hstart' : start = []
      · have hopening : afterOpening? (b :: '(' :: u) = some u := by
          have hparen : ¬ isBlank '(' = true := by decide
          rw [afterOpening?, List.head?_cons, Option.any_some, if_pos hb,
            List.dropWhile_cons_of_pos hb, List.dropWhile_cons_of_neg hparen]
          rfl
        obtain ⟨l, hplace⟩ := hplace
        rw [hstart', List.nil_append, hopening, Option.bind_some, hplace] at hhere
        cases hhere
      · obtain ⟨name, l, hnamed⟩ := ih hstart' hstart.2
        exact ⟨c :: name, l, by rw [hnamed]; rfl⟩

/-- A function in a written path is cut off at an opening parenthesis after a blank. -/
theorem exists_of_namedPlace?_written {name : Text} {l : Option Location} (hpath : IsLine path)
    (h : namedPlace? (written path line column) = some (name, l)) :
    HasOpening path ∧ ∃ gap rest, path = name ++ (gap ++ '(' :: rest) ∧ name ≠ [] ∧ gap ≠ [] ∧
      (∀ c ∈ gap, isBlank c = true) ∧ l = some (writtenPlace rest line column) := by
  obtain ⟨hname, gap, u, heq, hgap, hblanks, hplace⟩ := exists_of_namedPlace? h
  rw [← List.append_assoc] at heq
  obtain ⟨rest, hrest, rfl⟩ := exists_eq_append_of_written heq
  have hnewline : '\n' ∉ rest := by
    intro hmem
    have hpath' : '\n' ∉ path := hpath.notMem
    rw [hrest] at hpath'
    exact hpath' (List.mem_append_right _ (List.mem_cons_of_mem _ hmem))
  rw [place?_written hnewline] at hplace
  refine ⟨?_, gap, rest, by rw [hrest, List.append_assoc], hname, hgap, hblanks,
    (Option.some.inj hplace).symm⟩
  -- the last blank stands right before the parenthesis
  obtain ⟨blanks, b, rfl⟩ : ∃ blanks b, gap = blanks ++ [b] :=
    ⟨_, _, (List.dropLast_append_getLast hgap).symm⟩
  refine ⟨b, hblanks b (List.mem_append_right _ List.mem_cons_self), name ++ blanks, rest, ?_⟩
  rw [hrest]
  simp only [List.append_assoc, List.cons_append, List.nil_append]

theorem namedPlace?_written (hpath : IsLine path) (h : ¬ HasOpening path) :
    namedPlace? (written path line column) = none := by
  rw [Option.eq_none_iff_forall_ne_some]
  rintro ⟨name, l⟩ hnamed
  exact h (exists_of_namedPlace?_written hpath hnamed).1

theorem exists_namedPlace?_written (hpath : IsLine path) (hstart : path.head?.any isBlank = false)
    (h : HasOpening path) : ∃ name l, namedPlace? (written path line column) = some (name, l) := by
  obtain ⟨b, hb, start, rest, rfl⟩ := h
  have hne : start ≠ [] := by
    rintro rfl
    have hhead : isBlank b = false := hstart
    rw [hb] at hhead
    cases hhead
  obtain ⟨⟨hbefore, -⟩, hafter⟩ : (IsLine start ∧ IsLine [b, '(']) ∧ IsLine rest := by
    rwa [isLine_append, isLine_append] at hpath
  have hsplit : written (start ++ [b, '('] ++ rest) line column =
      start ++ b :: '(' :: written rest line column := by
    simp only [written, List.append_assoc, List.cons_append, List.nil_append]
  rw [hsplit]
  exact exists_namedPlace? hne hbefore.notMem hb
    ⟨_, place?_written hafter.notMem⟩

/-- The frame of a path with its line and column. -/
def writtenFrame (name : Option Text) (path : Text) (line column : Nat) : Frame :=
  if path = [] then ⟨name, some (':' :: Text.ofNat line), some column, none⟩
  else ⟨name, some path, some line, some column⟩

theorem parse_of_form?_written {t : Text} {name : Option Text}
    (hform : form? t = some (name, some (writtenPlace path line column)))
    (hline : Text.isWritable line = true) (hcolumn : Text.isWritable column = true) :
    parse t = .ok (some (writtenFrame name path line column)) := by
  rw [writtenPlace] at hform
  rw [writtenFrame]
  split at hform
  · next hnil =>
    have hnone : ∀ n ∈ (none : Option Nat), Text.isWritable n = true := fun n hn => by cases hn
    rw [if_pos hnil]
    exact parse_of_form? hform hcolumn hnone
  · next hne =>
    have hsome : ∀ n ∈ some column, Text.isWritable n = true := by
      rintro n ⟨⟩
      exact hcolumn
    rw [if_neg hne]
    exact parse_of_form? hform hline hsome

/-- **Anonymous frames are read back** in the keyword form, if no opening parenthesis stands in the
path after a blank. Else the path is cut at one: what stands before it is taken for a function, and
only the rest for the path. -/
theorem parse_anonymous (hne : path ≠ []) (hpath : IsLine path)
    (hstart : path.head?.any isBlank = false) (hline : Text.isWritable line = true)
    (hcolumn : Text.isWritable column = true) :
    (¬ HasOpening path → parse ("    at ".toList ++ written path line column) =
      .ok (some ⟨none, some path, some line, some column⟩)) ∧
    (HasOpening path → ∃ name gap rest, path = name ++ (gap ++ '(' :: rest) ∧ name ≠ [] ∧
      gap ≠ [] ∧ (∀ c ∈ gap, isBlank c = true) ∧
      parse ("    at ".toList ++ written path line column) =
        .ok (some (writtenFrame (some name) rest line column))) := by
  have hisLine : IsLine ("    at ".toList ++ written path line column) :=
    isLine_append.mpr ⟨by decide, isLine_written hpath⟩
  have hhead : (written path line column).head?.any isBlank = false := by
    rwa [written, List.head?_append_of_ne_nil path hne]
  have hkeyword := keywordForm?_at hhead
  refine ⟨?_, ?_⟩
  · intro hopening
    have hframe : writtenFrame none path line column =
        ⟨none, some path, some line, some column⟩ := if_neg hne
    rw [← hframe]
    refine parse_of_form?_written ?_ hline hcolumn
    rw [form?_eq hisLine, hkeyword, functionAndPlace?, namedPlace?_written hpath hopening,
      place?_written hpath.notMem]
    rfl
  · intro hopening
    obtain ⟨name, l, hnamed⟩ := exists_namedPlace?_written hpath hstart hopening
    obtain ⟨-, gap, rest, hcut, hname, hgap, hblanks, rfl⟩ :=
      exists_of_namedPlace?_written hpath hnamed
    refine ⟨name, gap, rest, hcut, hname, hgap, hblanks, ?_⟩
    refine parse_of_form?_written ?_ hline hcolumn
    rw [form?_eq hisLine, hkeyword, functionAndPlace?, hnamed]
    rfl

end Anonymous

theorem parse_anonymous_parentheses :
    parse ("    at ".toList ++ written "a b(1:2)".toList 3 4) =
        .ok (some ⟨none, some "a b(1:2)".toList, some 3, some 4⟩) ∧
      ∃ name rest, parse ("    at ".toList ++ written "a (b)/c".toList 3 4) =
        .ok (some (writtenFrame (some name) rest 3 4)) := by
  obtain ⟨hread, -⟩ := @parse_anonymous "a b(1:2)".toList 3 4 (by decide) (by decide) (by decide)
    (by decide) (by decide)
  obtain ⟨-, hcut⟩ := @parse_anonymous "a (b)/c".toList 3 4 (by decide) (by decide)
    (by decide) (by decide) (by decide)
  have hopening : ¬ HasOpening "a b(1:2)".toList := by
    rintro ⟨b, hb, h⟩
    have hpair : [b, '('] <:+: ['a', ' ', 'b', '(', '1', ':', '2', ')'] := h
    have hbefore : b = 'b' := by
      simpa [List.infix_cons_iff] using hpair
    rw [hbefore] at hb
    exact absurd hb (by decide)
  obtain ⟨name, -, rest, -, -, -, -, hparse⟩ := hcut ⟨' ', by decide, ['a'], "b)/c".toList, rfl⟩
  exact ⟨hread hopening, name, rest, hparse⟩

end Frame
end SourceStamp
