import SourceStamp.Proofs.Call.ClosingParen
import SourceStamp.Proofs.Call.Outline

/-!
# Layouts in the source text

The arguments of a call are outlined as a text of their own. From an opening parenthesis in code
they are read like that in the source text, so what the outline knows holds there as well, moved to
where the arguments start.

- `StandsAt`: a text inside the source text, with `StandsAt.gap_add` and `StandsAt.pairAt_shift`.
- `Balanced.gap_of_isEmpty`, `Balanced.lastObject_at`: what a layout says of the source text.
-/

namespace SourceStamp

open Text (isBlank)

/-! ## A text inside the source text -/

/-- A text that stands in the source text at an offset in code, before a character that completes no
delimiter. -/
structure StandsAt (source : Text) (base : Nat) (t rest : Text) : Prop where
  inCode : (readingAt source base).InCode
  drop_eq : source.drop base = t ++ rest
  not_isSecond : ¬ Reading.IsSecond rest.head?

namespace StandsAt

variable {source t rest : Text} {base : Nat}

theorem agree (h : StandsAt source base t rest) {p : Nat} (hp : p ≤ t.length) :
    (readingAt source (base + p)).Agree (readingAt t p) :=
  agree_readingAt_add h.inCode h.drop_eq h.not_isSecond hp

theorem getElem_add (h : StandsAt source base t rest) (p : Nat) :
    source[base + p]? = (t ++ rest)[p]? := by
  rw [← h.drop_eq, List.getElem?_drop]

theorem codeAt_add_iff (h : StandsAt source base t rest) {p : Nat} (hp : p < t.length) {c : Char} :
    CodeAt source (base + p) c ↔ CodeAt t p c := by
  have hget : source[base + p]? = t[p]? := by
    rw [h.getElem_add, List.getElem?_append_left hp]
  have hagree := h.agree (Nat.le_of_lt hp)
  constructor
  · exact fun hat => ⟨hget ▸ hat.get_eq, hagree.inCode hat.inCode⟩
  · exact fun hat => ⟨hget ▸ hat.get_eq, hagree.symm.inCode hat.inCode⟩

/-- Whether a visit is significant depends on the next character only if it can complete a
delimiter. -/
theorem isSignificant_congr {p p' : Nat} {c : Char} {n n' : Option Char} {s : LexicalState}
    (h : n = n' ∨ ¬ Reading.IsSecond n ∧ ¬ Reading.IsSecond n') :
    Visit.isSignificant ⟨p, c, n, s⟩ = Visit.isSignificant ⟨p', c, n', s⟩ := by
  rcases h with rfl | ⟨h, h'⟩
  · rfl
  · have hopens : ∀ {p : Nat} {m : Option Char}, ¬ Reading.IsSecond m →
        Outline.opensComment ⟨p, c, m, s⟩ = false := fun hm => by
      simp only [Reading.IsSecond, not_or] at hm
      simp [Outline.opensComment, beq_eq_false_iff_ne.mpr hm.1, beq_eq_false_iff_ne.mpr hm.2.1]
    rw [Visit.isSignificant, Visit.isSignificant, hopens h, hopens h']

theorem isSignificantAt_add (h : StandsAt source base t rest) {p : Nat} (hp : p < t.length) :
    isSignificantAt source (base + p) = isSignificantAt t p := by
  have hagree := h.agree (Nat.le_of_lt hp)
  have hget : source[base + p]? = t[p]? := by
    rw [h.getElem_add, List.getElem?_append_left hp]
  have hnext : source[base + p + 1]? = t[p + 1]? ∨
      ¬ Reading.IsSecond source[base + p + 1]? ∧ ¬ Reading.IsSecond t[p + 1]? := by
    rw [Nat.add_assoc, h.getElem_add]
    rcases Nat.lt_or_ge (p + 1) t.length with hlt | hge
    · rw [List.getElem?_append_left hlt]
      exact .inl rfl
    · -- after the last character of the text
      rw [List.getElem?_append_right hge, List.getElem?_eq_none hge, Nat.sub_eq_zero_of_le hp,
        ← List.head?_eq_getElem?]
      exact .inr ⟨h.not_isSecond, by simp [Reading.IsSecond]⟩
  rw [isSignificantAt, isSignificantAt, hget, hagree.state_eq, hagree.halfway_eq,
    List.getElem?_eq_getElem hp]
  simp only [Option.any_some]
  rw [isSignificant_congr hnext]

/-- A gap in the text is one in the source text. -/
theorem gap_add (h : StandsAt source base t rest) {first stop : Nat} (hgap : Gap t first stop)
    (hstop : stop ≤ t.length) : Gap source (base + first) (base + stop) := by
  intro q hq hle
  refine Nat.le_of_not_lt ?_
  intro hlt
  obtain ⟨p, rfl⟩ := Nat.exists_eq_add_of_le (Nat.le_trans (Nat.le_add_right base first) hle)
  rw [h.isSignificantAt_add (by omega)] at hq
  have := hgap p hq (by omega)
  omega

end StandsAt

/-- A pair of braces by offsets in a longer text. -/
def BracePair.shift (base : Nat) (b : BracePair) : BracePair :=
  ⟨base + b.opened, base + b.closed, base + b.lastInside, b.endsWithComma⟩

theorem BracePair.toObject_eq_shift (base : Nat) (b : BracePair) :
    b.toObject base = (b.shift base).toObject 0 := by
  have hempty : (b.lastInside == b.opened) = (base + b.lastInside == base + b.opened) := by
    rw [Bool.beq_eq_decide_eq, Bool.beq_eq_decide_eq, decide_eq_decide, Nat.add_left_cancel_iff]
  simp [BracePair.toObject, BracePair.shift, ← hempty]

/-- A pair of braces of the text is one of the source text. -/
theorem StandsAt.pairAt_shift {source t rest : Text} {base : Nat} (h : StandsAt source base t rest)
    {b : BracePair} (hb : PairAt t b) : PairAt source (b.shift base) := by
  have hclosed := hb.closed_at.lt
  have hinside : b.lastInside < t.length := Nat.lt_trans hb.lastInside_lt hclosed
  have hopened : b.opened < t.length := hb.opened_at.lt
  exact {
    opened_at := (h.codeAt_add_iff hopened).mpr hb.opened_at
    closed_at := (h.codeAt_add_iff hclosed).mpr hb.closed_at
    opened_le := Nat.add_le_add_left hb.opened_le base
    lastInside_lt := Nat.add_lt_add_left hb.lastInside_lt base
    significant := (h.isSignificantAt_add hinside).trans hb.significant
    gap := h.gap_add hb.gap (Nat.le_of_lt hclosed)
    inCode_succ := (h.agree hinside).symm.inCode hb.inCode_succ
    not_opener := fun hne c hc =>
      hb.not_opener (fun heq => hne (congrArg (base + ·) heq)) c ((h.codeAt_add_iff hinside).mp hc) }

/-! ## Argument lists -/

namespace Balanced

variable {source : Text} {opened closed : Nat}

theorem standsAt (h : Balanced source opened closed) :
    StandsAt source (opened + 1) (ArgumentList.find source opened).text
      (')' :: source.drop (closed + 1)) :=
  ⟨h.inCode_succ, ArgumentList.drop_eq h, by simp [Reading.IsSecond]⟩

/-- Nothing significant stands between the parentheses of an empty argument list. -/
theorem gap_of_isEmpty (h : Balanced source opened closed)
    (he : (ArgumentList.find source opened).layout.isEmpty = true) :
    Gap source (opened + 1) closed := by
  have hgap := h.standsAt.gap_add (SourceStamp.gap_of_isEmpty he) (Nat.le_refl _)
  rw [ArgumentList.length_text h] at hgap
  exact hgap

/-- The last object literal of an argument list is a pair of braces between its parentheses. -/
theorem lastObject_at (h : Balanced source opened closed) {o : ObjectLiteral}
    (ho : (ArgumentList.find source opened).layout.lastObject? = some o) :
    ∃ b, PairAt source b ∧ opened < b.opened ∧ b.closed < closed ∧ o = b.toObject 0 := by
  obtain ⟨b, hb, rfl⟩ := SourceStamp.lastObject_at ho
  have hlen := ArgumentList.length_text h
  have hclosed := hb.closed_at.lt
  refine ⟨b.shift (opened + 1), h.standsAt.pairAt_shift hb, ?_, ?_, ?_⟩
  · show opened < opened + 1 + b.opened
    omega
  · show opened + 1 + b.closed < closed
    omega
  · rw [ArgumentList.find_eq_some h]
    exact BracePair.toObject_eq_shift (opened + 1) b

end Balanced
end SourceStamp
