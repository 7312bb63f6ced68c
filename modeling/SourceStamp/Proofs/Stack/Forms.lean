import SourceStamp.Proofs.Stack.Readable
import SourceStamp.Proofs.Text.Blanks

/-!
# The parts of a line

What a line consists of when one of the three forms is found in it.

- `Frame.exists_of_location?`, `Frame.exists_of_place?`: a place is a path with numbers after it.
- `Frame.exists_of_namedPlace?`, `Frame.exists_of_keywordForm?`: a function ends before blanks and
  an opening parenthesis, and a blank stands before the function or the place.
- `Frame.exists_of_atSignForm?`, `Frame.exists_of_bareForm?`: the two forms that see no blanks
  around a line, and `Frame.unmarkedForm?`, one of the two.
- `Frame.shown?_of_parse`: a frame that is read is the one that is shown.
-/

namespace SourceStamp
namespace Frame

open Text (isBlank)

/-! ## Places -/

theorem exists_of_location? {numbers? : Text → Option (Text × Option Text)} {t : Text}
    {l : Location} (h : location? numbers? t = some l) :
    l.path ≠ [] ∧ ∃ rest, t = l.path ++ rest ∧ numbers? rest = some (l.line, l.column) := by
  induction t generalizing l with
  | nil => cases h
  | cons c r ih =>
    rw [location?] at h
    split at h
    · cases h
    · split at h
      · next line column hfound =>
        cases h
        exact ⟨List.cons_ne_nil _ _, r, rfl, hfound⟩
      · obtain ⟨l', hl', rfl⟩ := Option.map_eq_some_iff.mp h
        obtain ⟨-, rest, hrest, hnumbers⟩ := ih hl'
        exact ⟨List.cons_ne_nil _ _, rest, by rw [hrest]; rfl, hnumbers⟩

theorem exists_of_place? {t : Text} {l : Location} (h : place? t = some (some l)) :
    l.path ≠ [] ∧ ∃ rest, t = l.path ++ rest ∧
      looseNumbers? rest = some (l.line, l.column) := by
  rw [place?] at h
  split at h
  · next l' hl' =>
    cases h
    exact exists_of_location? hl'
  · split at h <;> cases h

/-- A place without a path holds a closing parenthesis at its end only. -/
theorem isOpaque_of_place? {t : Text} (h : place? t = some none) : isOpaque t = true := by
  rw [place?] at h
  split at h
  · cases h
  · split at h
    · next hopaque => exact hopaque
    · cases h

/-! ## The keyword form -/

theorem exists_of_afterOpening? {t u : Text} (h : afterOpening? t = some u) :
    ∃ gap, t = gap ++ '(' :: u ∧ gap ≠ [] ∧ ∀ c ∈ gap, isBlank c = true := by
  rw [afterOpening?] at h
  split at h
  · next hblank =>
    split at h
    · cases h
    · next c r hrest =>
      split at h
      · next hc =>
        cases h
        refine ⟨t.takeWhile isBlank, ?_, ?_, fun c hc => List.mem_takeWhile_imp hc⟩
        · rw [← hc, ← hrest, List.takeWhile_append_dropWhile]
        · cases t with
          | nil => cases hblank
          | cons d t =>
            have hd : isBlank d = true := hblank
            rw [List.takeWhile_cons_of_pos hd]
            exact List.cons_ne_nil _ _
      · cases h
  · cases h

theorem exists_of_namedPlace? {t name : Text} {l : Option Location}
    (h : namedPlace? t = some (name, l)) :
    name ≠ [] ∧ ∃ gap u, t = name ++ (gap ++ '(' :: u) ∧ gap ≠ [] ∧ (∀ c ∈ gap, isBlank c = true) ∧
      place? u = some l := by
  induction t generalizing name with
  | nil => cases h
  | cons c r ih =>
    rw [namedPlace?] at h
    split at h
    · cases h
    · split at h
      · next place hplace =>
        cases h
        obtain ⟨u, hu, hu'⟩ := Option.bind_eq_some_iff.mp hplace
        obtain ⟨gap, rfl, hne, hgap⟩ := exists_of_afterOpening? hu
        exact ⟨List.cons_ne_nil _ _, gap, u, rfl, hne, hgap, hu'⟩
      · obtain ⟨⟨name', l'⟩, hrest, heq⟩ := Option.map_eq_some_iff.mp h
        cases heq
        obtain ⟨-, gap, u, hparts⟩ := ih hrest
        exact ⟨List.cons_ne_nil _ _, gap, u, by rw [hparts.1]; rfl, hparts.2⟩

/-- The place is the whole text, or what follows a function and an opening parenthesis. -/
theorem exists_of_functionAndPlace? {t : Text} {name : Option Text} {l : Option Location}
    (h : functionAndPlace? t = some (name, l)) :
    (name = none ∧ place? t = some l) ∨
      ∃ start u, t = start ++ '(' :: u ∧ place? u = some l := by
  rw [functionAndPlace?] at h
  split at h
  · next hnamed =>
    cases h
    obtain ⟨-, gap, u, rfl, -, -, hplace⟩ := exists_of_namedPlace? hnamed
    exact .inr ⟨_ ++ gap, u, (List.append_assoc _ _ _).symm, hplace⟩
  · obtain ⟨l', hplace, heq⟩ := Option.map_eq_some_iff.mp h
    cases heq
    exact .inl ⟨rfl, hplace⟩

theorem exists_of_afterBlanks? {t : Text} {form : Option Text × Option Location}
    (h : afterBlanks? t = some form) :
    ∃ gap b r, t = gap ++ b :: r ∧ (∀ c ∈ gap, isBlank c = true) ∧ isBlank b = true ∧
      functionAndPlace? r = some form := by
  induction t with
  | nil => cases h
  | cons c r ih =>
    rw [afterBlanks?] at h
    split at h
    · next hc =>
      rcases Option.or_eq_some_iff.mp h with hlater | ⟨-, hhere⟩
      · obtain ⟨gap, b, s, rfl, hgap, hparts⟩ := ih hlater
        exact ⟨c :: gap, b, s, rfl, List.forall_mem_cons.mpr ⟨hc, hgap⟩, hparts⟩
      · exact ⟨[], c, r, rfl, fun d hd => absurd hd List.not_mem_nil, hc, hhere⟩
    · cases h

/-- What the keyword form passes over before the function or the place: blanks, the word and
further blanks. -/
structure IsLead (t : Text) : Prop where
  forall_mem : ∀ c ∈ t, isBlank c = true ∨ c = 'a' ∨ c = 't'
  mem : 'a' ∈ t

theorem exists_of_keywordForm? {t : Text} {form : Option Text × Option Location}
    (h : keywordForm? t = some form) :
    ∃ lead b r, t = lead ++ b :: r ∧ IsLead lead ∧ isBlank b = true ∧
      functionAndPlace? r = some form := by
  rw [keywordForm?] at h
  split at h
  · next r hr =>
    obtain ⟨gap, b, s, rfl, hgap, hb, hform⟩ := exists_of_afterBlanks? h
    refine ⟨t.takeWhile isBlank ++ 'a' :: 't' :: gap, b, s, ?_, ⟨?_, ?_⟩, hb, hform⟩
    · rw [List.append_assoc, List.cons_append, List.cons_append, ← hr,
        List.takeWhile_append_dropWhile]
    · rw [List.forall_mem_append, List.forall_mem_cons, List.forall_mem_cons]
      exact ⟨fun c hc => .inl (List.mem_takeWhile_imp hc), .inr (.inl rfl), .inr (.inr rfl),
        fun c hc => .inl (hgap c hc)⟩
    · exact List.mem_append_right _ List.mem_cons_self
  · cases h

/-- In the keyword form a blank or an opening parenthesis stands before the place. -/
theorem exists_of_keywordForm?_place {t : Text} {name : Option Text} {l : Option Location}
    (h : keywordForm? t = some (name, l)) :
    ∃ start c u, t = start ++ c :: u ∧ 'a' ∈ start ∧ (isBlank c = true ∨ c = '(') ∧
      place? u = some l := by
  obtain ⟨lead, b, r, rfl, hlead, hb, hform⟩ := exists_of_keywordForm? h
  rcases exists_of_functionAndPlace? hform with ⟨-, hplace⟩ | ⟨start, u, rfl, hplace⟩
  · exact ⟨lead, b, r, rfl, hlead.mem, .inl hb, hplace⟩
  · refine ⟨lead ++ b :: start, '(', u, ?_, List.mem_append_left _ hlead.mem, .inr rfl, hplace⟩
    rw [List.append_assoc, List.cons_append]

/-! ## The other two forms -/

theorem exists_of_bareForm? {t : Text} {l : Location} (h : bareForm? t = some l) :
    l.path ≠ [] ∧ ∃ rest, t = l.path ++ rest ∧ strictNumbers? rest = some (l.line, l.column) :=
  exists_of_location? h

theorem exists_of_atSignForm? {t name : Text} {l : Location} (h : atSignForm? t = some (name, l)) :
    l.path ≠ [] ∧ ∃ rest, t = name ++ '@' :: (l.path ++ rest) ∧
      strictNumbers? rest = some (l.line, l.column) := by
  induction t generalizing name with
  | nil => cases h
  | cons c r ih =>
    rcases Option.or_eq_some_iff.mp h with hlater | ⟨-, hhere⟩
    · split at hlater
      · cases hlater
      · obtain ⟨⟨name', l'⟩, hrest, heq⟩ := Option.map_eq_some_iff.mp hlater
        cases heq
        obtain ⟨hne, rest, rfl, hnumbers⟩ := ih hrest
        exact ⟨hne, rest, rfl, hnumbers⟩
    · split at hhere
      · next hc =>
        obtain ⟨l', hbare, heq⟩ := Option.map_eq_some_iff.mp hhere
        cases heq
        obtain ⟨hne, rest, rfl, hnumbers⟩ := exists_of_bareForm? hbare
        exact ⟨hne, rest, by rw [hc]; rfl, hnumbers⟩
      · cases hhere

/-- The form of a line that is not of the keyword form: the at-sign form, else the bare form. -/
def unmarkedForm? (bare : Text) : Option (Option Text × Option Location) :=
  ((atSignForm? bare).map fun (name, l) => (if name.isEmpty then none else some name, some l)).or
    ((bareForm? bare).map fun l => (none, some l))

theorem form?_eq {line : Text} (h : IsLine line) :
    form? line = (keywordForm? line).or (unmarkedForm? (Text.strip line)) := by
  rw [form?, dropEndWhile_of_isLine h]
  rfl

/-- The place in an unmarked line has a path with both numbers after it. The path is all that
stands before them, or follows an at sign. -/
theorem exists_of_unmarkedForm? {t : Text} {name : Option Text} {l : Option Location}
    (h : unmarkedForm? t = some (name, l)) :
    ∃ l' start rest, l = some l' ∧ t = start ++ (l'.path ++ rest) ∧
      strictNumbers? rest = some (l'.line, l'.column) ∧
      (start = [] ∨ start.getLast? = some '@') := by
  rcases Option.or_eq_some_iff.mp h with hsigned | ⟨-, hplain⟩
  · obtain ⟨⟨name', l'⟩, hat, heq⟩ := Option.map_eq_some_iff.mp hsigned
    cases heq
    obtain ⟨-, rest, rfl, hnumbers⟩ := exists_of_atSignForm? hat
    refine ⟨l', name' ++ ['@'], rest, rfl, ?_, hnumbers, .inr List.getLast?_concat⟩
    rw [List.append_assoc, List.singleton_append]
  · obtain ⟨l', hbare, heq⟩ := Option.map_eq_some_iff.mp hplain
    cases heq
    obtain ⟨-, rest, rfl, hnumbers⟩ := exists_of_bareForm? hbare
    exact ⟨l', [], rest, rfl, rfl, hnumbers, .inl rfl⟩

/-! ## Frames -/

/-- A frame that is read is the frame that the line shows. -/
theorem shown?_of_parse {line : Text} {found : Option Frame} (h : parse line = .ok found) :
    shown? line = found := by
  by_cases hshort : ∀ d ∈ numerals line, IsShort d
  · rw [(reads_parse line).ok hshort] at h
    exact Except.ok.inj h
  · rw [(reads_parse line).error hshort] at h
    cases h

/-- Lines of the same form are read alike. -/
theorem parse_congr {line line' : Text} (h : form? line = form? line') :
    parse line = parse line' := by
  rw [parse_eq, parse_eq, h]

end Frame
end SourceStamp
