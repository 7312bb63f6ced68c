import SourceStamp.Proofs.Lexis.Classification
import SourceStamp.Proofs.Lexis.CodeText

/-!
# Delimiters of two characters

The reading of a source text between the two characters of a delimiter, and at characters that
cannot be inside one.

- `LexicalState.takesNext_cases`: the delimiters that one step consumes whole.
- `exists_of_halfway`: a half-read delimiter starts one character before.
- `inCode_of_classify`: a character that completes no delimiter is in code as soon as its lexical
  state is.
- `agree_readingAt_add`: from code on, a text is read like a text of its own.
-/

namespace SourceStamp

namespace LexicalState

/-- The delimiters that one step consumes whole. -/
theorem takesNext_cases {s : LexicalState} {e : Bool} {c : Char} {f : Option Char}
    (h : (s.move e c f).takesNext = true) :
    (s = .code ∧ c = '/' ∧ f = some '/' ∧ (s.move e c f).after = .lineComment) ∨
    (s = .code ∧ c = '/' ∧ f = some '*' ∧ (s.move e c f).after = .blockComment) ∨
    (∃ d, s = .template d ∧ c = '$' ∧ f = some '{' ∧ (s.move e c f).after = .template (d + 1)) ∨
    (s = .blockComment ∧ c = '*' ∧ f = some '/' ∧ (s.move e c f).after = .code) := by
  cases s with
  | code =>
    simp only [move] at h ⊢
    split
    · next hc => exact .inl ⟨trivial, hc.1, hc.2, rfl⟩
    · next hc =>
      rw [if_neg hc] at h
      split
      · next hc => exact .inr (.inl ⟨trivial, hc.1, hc.2, rfl⟩)
      · next hc =>
        rw [if_neg hc] at h
        repeat' split at h
        all_goals cases h
  | string quote =>
    simp only [move] at h
    split at h <;> cases h
  | template d =>
    simp only [move] at h ⊢
    split
    · next hc => exact .inr (.inr (.inl ⟨d, rfl, hc.1, hc.2.1, rfl⟩))
    · next hc =>
      rw [if_neg hc] at h
      repeat' split at h
      all_goals cases h
  | lineComment =>
    simp only [move] at h
    split at h <;> cases h
  | blockComment =>
    simp only [move] at h ⊢
    split
    · next hc => exact .inr (.inr (.inr ⟨trivial, hc.1, hc.2, rfl⟩))
    · next hc =>
      rw [if_neg hc] at h
      cases h

/-- A delimiter of two characters changes the state. -/
theorem after_ne_of_takesNext {s : LexicalState} {e : Bool} {c : Char} {f : Option Char}
    (h : (s.move e c f).takesNext = true) : (s.move e c f).after ≠ s := by
  rcases takesNext_cases h with ⟨rfl, -, -, ha⟩ | ⟨rfl, -, -, ha⟩ | ⟨d, rfl, -, -, ha⟩ |
    ⟨rfl, -, -, ha⟩ <;> rw [ha] <;> simp

end LexicalState

variable {source : Text} {p : Nat}

/-- A half-read delimiter starts one character before. -/
theorem exists_of_halfway (h : (readingAt source p).halfway = true) :
    ∃ q, ∃ hq : q < source.length, p = q + 1 ∧ (readingAt source q).halfway = false ∧
      ∃ e, ((readingAt source q).state.move e source[q] source[q + 1]?).takesNext = true ∧
        (readingAt source p).state =
          ((readingAt source q).state.move e source[q] source[q + 1]?).after := by
  induction p with
  | zero => cases h
  | succ q ih =>
    rcases Nat.lt_or_ge q source.length with hq | hge
    · have hread := readingAt_succ hq
      rw [hread] at h
      cases hh : (readingAt source q).halfway with
      | true =>
        rw [Reading.next_of_halfway hh] at h
        cases h
      | false =>
        rw [Reading.next_of_not_halfway hh] at h hread
        exact ⟨q, hq, rfl, hh, _, h, congrArg Reading.state hread⟩
    · -- past the end nothing changes, so it started before the last character
      rw [readingAt_of_length_le (Nat.le_succ_of_le hge), ← readingAt_of_length_le hge] at h
      obtain ⟨q', hq', rfl, -, e, ht, -⟩ := ih h
      have hsome := LexicalState.takesNext_isSome ht
      rw [List.getElem?_eq_none hge] at hsome
      cases hsome

/-- A delimiter is half read only before a character that can complete it. -/
theorem isSecond_of_halfway (h : (readingAt source p).halfway = true) :
    Reading.IsSecond source[p]? := by
  obtain ⟨q, hq, rfl, -, e, ht, -⟩ := exists_of_halfway h
  rcases LexicalState.takesNext_cases ht with ⟨-, -, hf, -⟩ | ⟨-, -, hf, -⟩ | ⟨d, -, -, hf, -⟩ |
    ⟨-, -, hf, -⟩
  · exact .inl hf
  · exact .inr (.inl hf)
  · exact .inr (.inr hf)
  · exact .inl hf

theorem not_halfway_of_not_isSecond (h : ¬ Reading.IsSecond source[p]?) :
    (readingAt source p).halfway = false :=
  Bool.eq_false_iff.mpr fun hhalf => h (isSecond_of_halfway hhalf)

/-- A character that completes no delimiter is in code as soon as its lexical state is. -/
theorem inCode_of_classify (h : classify source p = .code) (hc : ¬ Reading.IsSecond source[p]?) :
    (readingAt source p).InCode :=
  ⟨(classify_eq source p).symm.trans h, not_halfway_of_not_isSecond hc⟩

/-- A closed stretch of text leads from code to code. -/
theorem inCode_add_of_closed {x rest : Text} (hp : (readingAt source p).InCode)
    (hdrop : source.drop p = x ++ rest) (hx : Reading.Closed x) :
    (readingAt source (p + x.length)).InCode := by
  rw [readingAt_add, hdrop, List.take_left]
  exact hx _ _ hp

/-- From code on, a text is read like a text of its own, up to a character that completes no
delimiter. -/
theorem agree_readingAt_add {x rest : Text} (hp : (readingAt source p).InCode)
    (hdrop : source.drop p = x ++ rest) (hrest : ¬ Reading.IsSecond rest.head?) {k : Nat}
    (hk : k ≤ x.length) : (readingAt source (p + k)).Agree (readingAt x k) := by
  have hget : source[p + k]? = (x ++ rest)[k]? := by rw [← hdrop, List.getElem?_drop]
  rw [readingAt_add, hdrop, List.take_append_of_le_length hk, hget]
  show Reading.Agree _ (Reading.start.read x[k]? (x.take k))
  rcases Nat.lt_or_ge k x.length with hlt | hge
  · rw [List.getElem?_append_left hlt]
    exact (hp.agree Reading.start_inCode).read _ _
  · obtain rfl := Nat.le_antisymm hk hge
    rw [List.getElem?_append_right (Nat.le_refl _), Nat.sub_self, ← List.head?_eq_getElem?,
      List.getElem?_eq_none (Nat.le_refl _),
      @Reading.read_eq_of_not_isSecond _ none hrest (by simp [Reading.IsSecond])]
    exact (hp.agree Reading.start_inCode).read _ _

end SourceStamp
