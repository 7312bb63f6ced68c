import SourceStamp.Proofs.Text.Blanks
import SourceStamp.Proofs.Text.Decimal

/-!
# Texts that look like numerals

A text looks like a numeral when it consists of digits with blanks around them. Not every digit is a
decimal one, and not every blank may stand around a numeral, so some of these texts have no value.

- `Text.LooksNumeric`, `Text.HasValue`: the two conditions.
- `Text.integer?_of_looksNumeric`: a text that looks like a numeral is read exactly when it has a
  value.
-/

namespace SourceStamp.Text

/-- A text of digits, decimal or not, with blanks around them. -/
def LooksNumeric (t : Text) : Prop := strip t ≠ [] ∧ ∀ c ∈ strip t, isDigitLike c = true

instance (t : Text) : Decidable (LooksNumeric t) :=
  decidable_of_iff (strip t ≠ [] ∧ (strip t).all isDigitLike = true) (by simp [LooksNumeric])

/-- Nothing but decimal digits and blanks that may stand around them, and no more digits than a
numeral may have. -/
def HasValue (t : Text) : Prop :=
  (∀ c ∈ t, isNumeralBlank c = true ∨ isDecimal c = true) ∧ (strip t).length ≤ longestNumeral

instance (t : Text) : Decidable (HasValue t) :=
  decidable_of_iff (t.all (fun c => isNumeralBlank c || isDecimal c) = true ∧
    (strip t).length ≤ longestNumeral) (by simp [HasValue])

theorem isBlank_of_isNumeralBlank {c : Char} (h : isNumeralBlank c = true) : isBlank c = true :=
  (Bool.and_eq_true_iff.mp h).1

/-! ## Digits without separators -/

theorem groupedDigits?_eq {t : Text} (hne : t ≠ []) (hseparator : '_' ∉ t) :
    groupedDigits? t = t.mapM digit? := by
  fun_induction groupedDigits? t with
  | case1 => exact absurd rfl hne
  | case2 c => cases hc : digit? c <;> simp [hc]
  | case3 => simp at hseparator
  | case4 => simp at hseparator
  | case5 c r hnil _ d ds hds hd ih =>
    have hrest := ih hnil fun h => hseparator (List.mem_cons_of_mem c h)
    rw [List.mapM_cons, hd, ← hrest, hds]
    rfl
  | case6 c r hnil _ hnone ih =>
    have hrest := ih hnil fun h => hseparator (List.mem_cons_of_mem c h)
    rw [List.mapM_cons, ← hrest]
    cases hd : digit? c with
    | none => rfl
    | some d =>
      cases hds : groupedDigits? r with
      | none => rfl
      | some ds => exact (hnone d ds hd hds).elim

theorem isDecimal_of_mapM_digit? {t : Text} {digits : List Nat} (h : t.mapM digit? = some digits) :
    ∀ c ∈ t, isDecimal c = true := by
  induction t generalizing digits with
  | nil => exact fun c hc => absurd hc List.not_mem_nil
  | cons c t ih =>
    rw [List.mapM_cons] at h
    obtain ⟨d, hd, h⟩ := Option.bind_eq_some_iff.mp h
    obtain ⟨ds, hds, -⟩ := Option.bind_eq_some_iff.mp h
    exact List.forall_mem_cons.mpr ⟨by rw [isDecimal, hd]; rfl, ih hds⟩

/-! ## The value of a text that looks like a numeral -/

section LooksNumeric

variable {t : Text}

/-- A text without signs and separators is read digit by digit. -/
theorem integer?_of_notMem {u : Text} (hcore : dropEndWhile isNumeralBlank
      (t.dropWhile isNumeralBlank) = u) (hne : u ≠ []) (hplus : '+' ∉ u) (hminus : '-' ∉ u)
    (hseparator : '_' ∉ u) :
    integer? t = ((u.mapM digit?).bind boundedValue?).map Int.ofNat := by
  rw [integer?, hcore]
  split
  · simp at hminus
  · simp at hplus
  · rw [groupedDigits?_eq hne hseparator]

theorem LooksNumeric.forall_mem (h : LooksNumeric t) :
    ∀ c ∈ t, isBlank c = true ∨ isDigitLike c = true := by
  obtain ⟨before, after, ht, hbefore, hafter⟩ := exists_eq_strip t
  rw [ht, List.forall_mem_append, List.forall_mem_append]
  exact ⟨⟨fun c hc => .inl (hbefore c hc), fun c hc => .inr (h.2 c hc)⟩,
    fun c hc => .inl (hafter c hc)⟩

theorem LooksNumeric.notMem (h : LooksNumeric t) {c : Char} (hblank : isBlank c = false)
    (hdigit : isDigitLike c = false) : c ∉ t := by
  intro hc
  rcases h.forall_mem c hc with hc | hc
  · rw [hblank] at hc
    cases hc
  · rw [hdigit] at hc
    cases hc

/-- Without other blanks and other digits only the digits are left when blanks are taken away. -/
theorem LooksNumeric.dropBlanks (h : LooksNumeric t)
    (hchars : ∀ c ∈ t, isNumeralBlank c = true ∨ isDecimal c = true) :
    dropEndWhile isNumeralBlank (t.dropWhile isNumeralBlank) = strip t ∧
      ∀ c ∈ strip t, isDecimal c = true := by
  obtain ⟨before, after, ht, hbefore, hafter⟩ := exists_eq_strip t
  have hparts := hchars
  rw [ht, List.forall_mem_append, List.forall_mem_append] at hparts
  obtain ⟨⟨hbefore', hinner'⟩, hafter'⟩ := hparts
  -- the blanks around are no digits, and in between there are no blanks
  have houter : ∀ {c}, isBlank c = true → isNumeralBlank c = true ∨ isDecimal c = true →
      isNumeralBlank c = true := by
    intro c hblank hc
    refine hc.resolve_right fun hdecimal => ?_
    rw [isBlank_of_isDigitLike (isDigitLike_of_isDecimal hdecimal)] at hblank
    cases hblank
  have hinner : ∀ c ∈ strip t, isNumeralBlank c = false := by
    intro c hc
    rw [Bool.eq_false_iff]
    intro hblank
    have hdigit := isBlank_of_isDigitLike (h.2 c hc)
    rw [isBlank_of_isNumeralBlank hblank] at hdigit
    cases hdigit
  refine ⟨?_, ?_⟩
  · conv_lhs => rw [ht]
    exact trim_surrounded (fun c hc => houter (hbefore c hc) (hbefore' c hc)) hinner
      fun c hc => houter (hafter c hc) (hafter' c hc)
  · intro c hc
    refine (hinner' c hc).resolve_left fun hblank => ?_
    rw [hinner c hc] at hblank
    cases hblank

theorem LooksNumeric.trim_ne_nil (h : LooksNumeric t) :
    dropEndWhile isNumeralBlank (t.dropWhile isNumeralBlank) ≠ [] := by
  obtain ⟨before, after, ht, hbefore, hafter⟩ := exists_eq_trim isNumeralBlank t
  intro hnil
  rw [hnil, List.append_nil] at ht
  -- a text of nothing but blanks
  have hall : ∀ c ∈ t, isBlank c = true := by
    rw [ht, List.forall_mem_append]
    exact ⟨fun c hc => isBlank_of_isNumeralBlank (hbefore c hc),
      fun c hc => isBlank_of_isNumeralBlank (hafter c hc)⟩
  refine h.1 ?_
  rw [strip, stripStart_eq_nil_iff.mpr hall]
  rfl

/-- **A text that looks like a numeral is read exactly when it has a value.** -/
theorem integer?_of_looksNumeric (h : LooksNumeric t) :
    integer? t =
      if HasValue t then some (valueOfDigits ((strip t).filterMap digit?) : Int) else none := by
  have hne := h.trim_ne_nil
  obtain ⟨before, after, ht, hbefore, hafter⟩ := exists_eq_trim isNumeralBlank t
  generalize hcore : dropEndWhile isNumeralBlank (t.dropWhile isNumeralBlank) = u at ht hne
  have hnotMem : ∀ {c}, isBlank c = false → isDigitLike c = false → c ∉ u := by
    intro c hblank hdigit hmem
    have hc := h.notMem hblank hdigit
    rw [ht] at hc
    exact hc (List.mem_append_left _ (List.mem_append_right _ hmem))
  rw [integer?_of_notMem hcore hne (hnotMem (by decide) (by decide))
    (hnotMem (by decide) (by decide)) (hnotMem (by decide) (by decide))]
  by_cases hchars : ∀ c ∈ t, isNumeralBlank c = true ∨ isDecimal c = true
  · obtain ⟨hstrip, hdecimal⟩ := h.dropBlanks hchars
    rw [hcore] at hstrip
    obtain ⟨hmap, hlength⟩ := mapM_digit?_of_isDecimal hdecimal
    rw [hstrip, hmap, Option.bind_some, boundedValue?, hlength]
    by_cases hlong : (strip t).length ≤ longestNumeral
    · rw [if_pos hlong, if_pos ⟨hchars, hlong⟩]
      rfl
    · rw [if_neg hlong, if_neg fun hvalue => hlong hvalue.2]
      rfl
  · rw [if_neg fun hvalue => hchars hvalue.1]
    cases hmap : u.mapM digit? with
    | none => rfl
    | some digits =>
      -- a text that is read has no other characters
      refine absurd ?_ hchars
      rw [ht, List.forall_mem_append, List.forall_mem_append]
      exact ⟨⟨fun c hc => .inl (hbefore c hc),
        fun c hc => .inr (isDecimal_of_mapM_digit? hmap c hc)⟩, fun c hc => .inl (hafter c hc)⟩

end LooksNumeric

end SourceStamp.Text
