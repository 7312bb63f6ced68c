import Mathlib.Data.List.TakeWhile
import SourceStamp.Proofs.Text.Decimal
import SourceStamp.Stack.Frame

/-!
# Places

- `Frame.location?_numbers`: a path with line and column is split in one way only. An earlier split
  would leave one colon too many.
- `Frame.Location.IsRead`: the numbers of a place are texts of digits, and
  `Frame.isRead_of_location?`: those of a place that is read are.
- `Frame.number?_eq`: such a text is read exactly when it is not too long.
-/

namespace SourceStamp
namespace Frame

open Text (isDecimal)

/-! ## Numbers -/

/-- The text of a numeral. -/
def IsDigits (t : Text) : Prop := t ≠ [] ∧ ∀ c ∈ t, isDecimal c = true

theorem IsDigits.notMem {t : Text} (h : IsDigits t) {c : Char} (hc : isDecimal c = false) :
    c ∉ t := by
  intro hmem
  rw [h.2 c hmem] at hc
  cases hc

theorem isDigits_ofNat (n : Nat) : IsDigits (Text.ofNat n) :=
  ⟨Text.ofNat_ne_nil n, fun _ hc => Text.isDecimal_of_isDigit (Text.isDigit_of_mem_ofNat hc)⟩

/-- A line and a column, with what closes the place. -/
def numbers (line column close : Text) : Text := ':' :: line ++ ':' :: column ++ close

theorem colonDigits?_append {digits rest : Text} (hdigits : IsDigits digits)
    (hrest : rest.head?.any isDecimal = false) :
    colonDigits? (':' :: digits ++ rest) = some (digits, rest) := by
  have hstops : rest.takeWhile isDecimal = [] ∧ rest.dropWhile isDecimal = rest := by
    cases rest with
    | nil => exact ⟨rfl, rfl⟩
    | cons c r => simp_all
  rw [List.cons_append, colonDigits?, List.takeWhile_append_of_pos hdigits.2,
    List.dropWhile_append_of_pos hdigits.2, hstops.1, hstops.2, List.append_nil,
    if_pos ⟨rfl, hdigits.1⟩]

theorem eq_of_colonDigits? {t digits rest : Text} (h : colonDigits? t = some (digits, rest)) :
    t = ':' :: digits ++ rest ∧ IsDigits digits := by
  cases t with
  | nil => cases h
  | cons c r =>
    rw [colonDigits?] at h
    split at h
    · next hc =>
      cases h
      exact ⟨by rw [hc.1, List.cons_append, List.takeWhile_append_dropWhile], hc.2,
        fun d hd => List.mem_takeWhile_imp hd⟩
    · cases h

theorem isClosed_iff {t : Text} : isClosed t = true ↔ t = [] ∨ t = [')'] := by
  rw [isClosed, Bool.or_eq_true, List.isEmpty_iff, beq_iff_eq]

/-- **Inversion**: the numbers at the end of a text are texts of digits after colons. -/
theorem eq_of_looseNumbers? {t line : Text} {column : Option Text}
    (h : looseNumbers? t = some (line, column)) :
    (∀ d ∈ line :: column.toList, IsDigits d) ∧ ∃ close, isClosed close = true ∧
      t = (line :: column.toList).flatMap (':' :: ·) ++ close := by
  rw [looseNumbers?] at h
  split at h
  · cases h
  · next line' r hline =>
    obtain ⟨rfl, hdigits⟩ := eq_of_colonDigits? hline
    split at h
    · next column' close hcolumn =>
      obtain ⟨rfl, hdigits'⟩ := eq_of_colonDigits? hcolumn
      split at h
      · next hclose =>
        cases h
        refine ⟨List.forall_mem_cons.mpr ⟨hdigits, List.forall_mem_singleton.mpr hdigits'⟩, close,
          hclose, ?_⟩
        simp
      · cases h
    · split at h
      · next hclose =>
        cases h
        refine ⟨List.forall_mem_singleton.mpr hdigits, r, hclose, ?_⟩
        simp
      · cases h

/-- Numbers start with a colon, and there is one colon to each of them. -/
theorem colons_of_looseNumbers? {t line : Text} {column : Option Text}
    (h : looseNumbers? t = some (line, column)) :
    t.head? = some ':' ∧ t.count ':' = column.toList.length + 1 := by
  obtain ⟨hdigits, close, hclose, rfl⟩ := eq_of_looseNumbers? h
  refine ⟨rfl, ?_⟩
  have hnone : close.count ':' = 0 := by
    rcases isClosed_iff.mp hclose with rfl | rfl <;> rfl
  have hall : ∀ numerals : List Text, (∀ d ∈ numerals, IsDigits d) →
      (numerals.flatMap (':' :: ·)).count ':' = numerals.length := by
    intro numerals hnumerals
    induction numerals with
    | nil => rfl
    | cons d numerals ih =>
      obtain ⟨hd, hrest⟩ := List.forall_mem_cons.mp hnumerals
      rw [List.flatMap_cons, List.count_append, List.count_cons_self, ih hrest,
        List.count_eq_zero.mpr (hd.notMem (by decide)), List.length_cons]
      omega
  rw [List.count_append, hall _ hdigits, hnone]
  rfl

/-- Numbers hold nothing but colons, digits and perhaps a closing parenthesis. -/
theorem mem_of_looseNumbers? {t line : Text} {column : Option Text}
    (h : looseNumbers? t = some (line, column)) :
    ∀ c ∈ t, c = ':' ∨ c = ')' ∨ isDecimal c = true := by
  obtain ⟨hdigits, close, hclose, rfl⟩ := eq_of_looseNumbers? h
  intro c hc
  rcases List.mem_append.mp hc with hc | hc
  · obtain ⟨d, hd, hc⟩ := List.mem_flatMap.mp hc
    rcases List.mem_cons.mp hc with rfl | hc
    · exact .inl rfl
    · exact .inr (.inr ((hdigits d hd).2 c hc))
  · rcases isClosed_iff.mp hclose with rfl | rfl
    · cases hc
    · exact .inr (.inl (List.mem_singleton.mp hc))

/-- Two texts that end alike, each in as many numbers as the other, end in the same ones. -/
theorem eq_of_count_colon {a b r s : Text} (h : a ++ r = b ++ s) (hr : r.head? = some ':')
    (hs : s.head? = some ':') (hcount : r.count ':' = s.count ':') : r = s := by
  have hlonger : ∀ {m u v : Text}, u = m ++ v → u.head? = some ':' →
      u.count ':' = v.count ':' → u = v := by
    rintro (_ | ⟨c, m⟩) u v rfl hhead hsame
    · rfl
    · cases hhead
      rw [List.count_append, List.count_cons_self] at hsame
      omega
  rcases List.append_eq_append_iff.mp h with ⟨m, -, hm⟩ | ⟨m, -, hm⟩
  · exact hlonger hm hr hcount
  · exact (hlonger hm hs hcount.symm).symm

/-- A path is read up to the numbers after it, if no later part of the path and they would pass
for numbers too. -/
theorem location?_append {numbers? : Text → Option (Text × Option Text)} {path rest line : Text}
    {column : Option Text} (hread : numbers? rest = some (line, column))
    (hlater : ∀ t, t ≠ [] → t <:+ path.tail → numbers? (t ++ rest) = none) (hne : path ≠ [])
    (hpath : '\n' ∉ path) : location? numbers? (path ++ rest) = some ⟨path, line, column⟩ := by
  induction path with
  | nil => exact absurd rfl hne
  | cons c path ih =>
    rw [List.mem_cons, not_or] at hpath
    rw [List.cons_append, location?, if_neg (Ne.symm hpath.1)]
    by_cases hpath' : path = []
    · simp only [hpath', List.nil_append, hread]
    · have htail : ∀ t, t ≠ [] → t <:+ path.tail → numbers? (t ++ rest) = none :=
        fun t ht hsuffix => hlater t ht (hsuffix.trans (List.tail_suffix path))
      simp only [hlater path hpath' List.suffix_rfl, ih htail hpath' hpath.2, Option.map_some]

section Numbers

variable {line column close : Text} (hline : IsDigits line) (hcolumn : IsDigits column)
  (hclose : isClosed close = true)

include hline hcolumn hclose

theorem looseNumbers?_numbers :
    looseNumbers? (numbers line column close) = some (line, some column) := by
  have hrest : close.head?.any isDecimal = false := by
    rcases isClosed_iff.mp hclose with rfl | rfl
    · rfl
    · decide
  have hcolon : (':' :: column ++ close).head?.any isDecimal = false := by
    show isDecimal ':' = false
    decide
  rw [looseNumbers?, numbers, List.append_assoc, colonDigits?_append hline hcolon]
  simp only [colonDigits?_append hcolumn hrest, hclose, if_true]

omit hline hcolumn hclose in
theorem looseNumbers?_append_numbers {t : Text} (hne : t ≠ []) :
    looseNumbers? (t ++ numbers line column close) = none := by
  rw [Option.eq_none_iff_forall_ne_some]
  rintro ⟨line', column'⟩ h
  obtain ⟨hhead, hcount⟩ := colons_of_looseNumbers? h
  have hone : column'.toList.length ≤ 1 := by cases column' <;> simp
  obtain ⟨c, r, rfl⟩ := List.exists_cons_of_ne_nil hne
  cases hhead
  simp only [numbers, List.cons_append, List.append_assoc, List.count_append,
    List.count_cons_self] at hcount
  omega

/-- A path is read up to its line and column, whatever it holds. -/
theorem location?_numbers {path : Text} (hne : path ≠ []) (hpath : '\n' ∉ path) :
    location? looseNumbers? (path ++ numbers line column close) =
      some ⟨path, line, some column⟩ :=
  location?_append (looseNumbers?_numbers hline hcolumn hclose)
    (fun _ ht _ => looseNumbers?_append_numbers ht) hne hpath

omit hclose in
theorem strictNumbers?_numbers :
    strictNumbers? (numbers line column []) = some (line, some column) := by
  have hcolon : (':' :: column ++ []).head?.any isDecimal = false := by
    show isDecimal ':' = false
    decide
  have hend : colonDigits? (':' :: column ++ []) = some (column, []) :=
    colonDigits?_append hcolumn rfl
  rw [strictNumbers?, numbers, List.append_assoc, colonDigits?_append hline hcolon]
  simp only [hend]

end Numbers

/-- **Inversion**: of numbers that are both asked for, nothing is left out, and nothing closes
them. -/
theorem eq_of_strictNumbers? {t line : Text} {column : Option Text}
    (h : strictNumbers? t = some (line, column)) :
    ∃ digits, column = some digits ∧ IsDigits line ∧ IsDigits digits ∧
      t = numbers line digits [] := by
  rw [strictNumbers?] at h
  split at h
  · cases h
  · next line' r hline =>
    split at h
    · next column' hcolumn =>
      cases h
      obtain ⟨rfl, hdigits⟩ := eq_of_colonDigits? hline
      obtain ⟨rfl, hdigits'⟩ := eq_of_colonDigits? hcolumn
      exact ⟨column', rfl, hdigits, hdigits', (List.append_assoc _ _ _).symm⟩
    · cases h

theorem looseNumbers?_of_strictNumbers? {t line : Text} {column : Option Text}
    (h : strictNumbers? t = some (line, column)) :
    looseNumbers? t = some (line, column) ∧ column.isSome := by
  obtain ⟨digits, rfl, hline, hdigits, rfl⟩ := eq_of_strictNumbers? h
  exact ⟨looseNumbers?_numbers hline hdigits rfl, rfl⟩

theorem paren_notMem_of_strictNumbers? {t line : Text} {column : Option Text}
    (h : strictNumbers? t = some (line, column)) : ')' ∉ t := by
  obtain ⟨digits, -, hline, hdigits, rfl⟩ := eq_of_strictNumbers? h
  have hfirst := hline.notMem (c := ')') (by decide)
  have hsecond := hdigits.notMem (c := ')') (by decide)
  simp only [numbers, List.append_nil, List.cons_append, List.mem_cons, List.mem_append, not_or]
  exact ⟨by decide, hfirst, by decide, hsecond⟩

/-! ## Places that are read -/

/-- The digits of the numbers of a place. -/
def Location.numerals (l : Location) : List Text := l.line :: l.column.toList

/-- The numbers of a place are texts of digits. -/
def Location.IsRead (l : Location) : Prop := ∀ d ∈ l.numerals, IsDigits d

/-- The numbers that are found in a text are texts of digits. -/
def FindDigits (numbers? : Text → Option (Text × Option Text)) : Prop :=
  ∀ t line column, numbers? t = some (line, column) → ∀ d ∈ line :: column.toList, IsDigits d

theorem findDigits_looseNumbers? : FindDigits looseNumbers? :=
  fun _ _ _ h => (eq_of_looseNumbers? h).1

theorem findDigits_strictNumbers? : FindDigits strictNumbers? := fun t line column h =>
  findDigits_looseNumbers? t line column (looseNumbers?_of_strictNumbers? h).1

theorem isRead_of_location? {numbers? : Text → Option (Text × Option Text)}
    (hnumbers : FindDigits numbers?) {t : Text} {l : Location}
    (h : location? numbers? t = some l) : l.IsRead := by
  induction t generalizing l with
  | nil => cases h
  | cons c r ih =>
    rw [location?] at h
    split at h
    · cases h
    · split at h
      · next line column hfound =>
        cases h
        exact hnumbers r line column hfound
      · obtain ⟨l', hl', rfl⟩ := Option.map_eq_some_iff.mp h
        exact @ih l' hl'

theorem isRead_of_place? {t : Text} {l : Location} (h : place? t = some (some l)) : l.IsRead := by
  rw [place?] at h
  split at h
  · next l' hl' =>
    cases h
    exact isRead_of_location? findDigits_looseNumbers? hl'
  · split at h <;> cases h

/-! ## Values -/

/-- The value of a text of digits, however many they are. -/
def value (digits : Text) : Nat := Text.valueOfDigits (digits.filterMap Text.digit?)

/-- A numeral has no more digits than it may have. -/
def IsShort (digits : Text) : Prop := digits.length ≤ Text.longestNumeral

instance (digits : Text) : Decidable (IsShort digits) := inferInstanceAs (Decidable (_ ≤ _))

/-- Digits are read exactly when they are not too many. -/
theorem number?_eq {digits : Text} (h : IsDigits digits) :
    Text.number? digits = if IsShort digits then some (value digits) else none := by
  obtain ⟨hmap, hlength⟩ := Text.mapM_digit?_of_isDecimal h.2
  rw [Text.number?.eq_def]
  split
  · exact absurd rfl h.1
  · rw [hmap, Option.bind_some, Text.boundedValue?, hlength]
    rfl

end Frame
end SourceStamp
