import SourceStamp.Proofs.Call.Search

/-!
# The search for calls across an addition

A text is put in before a closing parenthesis. The search for calls looks at names, angle brackets,
blanks and opening parentheses, so it passes over a text that offers nothing of the kind where the
search could stop.

- `PassedOver`: such a text.
- `Widened`: the rest of a text with the addition, against the rest without. Every step of the
  search keeps this: `Widened.afterTypeArguments`, `Widened.afterParen`, `Widened.calleeAt`.
-/

namespace SourceStamp

open Text (isBlank)

/-- A text at which no step of the search for calls stops. -/
structure PassedOver (x : Text) : Prop where
  no_angle : ∀ c ∈ x, c ≠ '<' ∧ c ≠ '>'
  /-- No name goes on into it. -/
  first : ∃ c rest, x = c :: rest ∧ isCalleeChar c = false
  /-- No opening parenthesis follows its blanks. -/
  not_paren : ∃ blanks c rest, x = blanks ++ c :: rest ∧ (∀ b ∈ blanks, isBlank b = true) ∧
    isBlank c = false ∧ c ≠ '('
  /-- No call that it shows goes on after it. -/
  last : ∃ front c, x = front ++ [c] ∧ isCalleeChar c = false ∧ isBlank c = false

/-- What is left of a text in which `x` stands before a closing parenthesis, with `b` after that,
against what is left without it. -/
inductive Widened (x b : Text) : Text → Text → Prop
  | before (a : Text) : Widened x b (a ++ ')' :: b) (a ++ (x ++ ')' :: b))
  | after {t : Text} (h : t.length ≤ b.length) : Widened x b t t

/-! ## One step of the search -/

section Steps

variable {x b t t' : Text}

theorem Widened.length_eq (h : Widened x b t t') :
    t'.length = if t.length ≤ b.length then t.length else t.length + x.length := by
  cases h with
  | before a =>
    simp only [List.length_append, List.length_cons]
    rw [if_neg (by omega)]
    omega
  | after h => rw [if_pos h]

/-- After the addition both searches are at the same text. -/
theorem Widened.rel_of_le {o : Option Text} (h : ∀ t, o = some t → t.length ≤ b.length) :
    Option.Rel (Widened x b) o o := by
  cases o with
  | none => exact .none
  | some t => exact .some (.after (h t rfl))

/-- Where no angle bracket stands the search for the end of type arguments goes on. -/
theorem afterClosingAngle_append {nested : Bool} (hx : ∀ c ∈ x, c ≠ '<' ∧ c ≠ '>') (t : Text) :
    afterClosingAngle nested (x ++ t) = afterClosingAngle nested t := by
  induction x with
  | nil => rfl
  | cons c x ih =>
    obtain ⟨⟨h1, h2⟩, hx⟩ := List.forall_mem_cons.mp hx
    rw [List.cons_append, afterClosingAngle, if_neg h1, if_neg h2, ih hx]

theorem length_le_of_afterClosingAngle {nested : Bool} {after : Text}
    (h : afterClosingAngle nested t = some after) : after.length ≤ t.length := by
  obtain ⟨inside, rfl⟩ := exists_of_afterClosingAngle h
  simp only [List.length_append, List.length_cons]
  omega

theorem Widened.afterClosingAngle (hx : PassedOver x) (nested : Bool) (h : Widened x b t t') :
    Option.Rel (Widened x b) (afterClosingAngle nested t) (afterClosingAngle nested t') := by
  cases h with
  | after h =>
    exact rel_of_le fun after hafter => Nat.le_trans (length_le_of_afterClosingAngle hafter) h
  | before a =>
    induction a generalizing nested with
    | nil =>
      rw [List.nil_append, List.nil_append, afterClosingAngle_append hx.no_angle]
      refine rel_of_le fun after hafter => ?_
      rw [SourceStamp.afterClosingAngle, if_neg (by decide), if_neg (by decide)] at hafter
      exact length_le_of_afterClosingAngle hafter
    | cons c a ih =>
      rw [List.cons_append, List.cons_append, SourceStamp.afterClosingAngle,
        SourceStamp.afterClosingAngle]
      split
      · split
        · exact .none
        · exact ih true
      · split
        · split
          · exact ih false
          · exact .some (.before a)
        · exact ih nested

theorem Widened.afterTypeArguments (hx : PassedOver x) (h : Widened x b t t') :
    Option.Rel (Widened x b) (afterTypeArguments t) (afterTypeArguments t') := by
  cases h with
  | after h =>
    refine rel_of_le fun after hafter => Nat.le_trans ?_ h
    rcases exists_of_afterTypeArguments hafter with rfl | ⟨inside, rfl⟩
    · exact Nat.le_refl _
    · simp only [List.length_append, List.length_cons]
      omega
  | before a =>
    cases a with
    | nil =>
      obtain ⟨c, rest, rfl, -⟩ := hx.first
      have hc := (hx.no_angle c List.mem_cons_self).1
      rw [List.nil_append, List.nil_append, List.cons_append, SourceStamp.afterTypeArguments,
        SourceStamp.afterTypeArguments, if_neg (by decide), if_neg hc]
      exact .some (.before [])
    | cons c a =>
      rw [List.cons_append, List.cons_append, SourceStamp.afterTypeArguments,
        SourceStamp.afterTypeArguments]
      split
      · exact (Widened.before a).afterClosingAngle hx false
      · exact .some (.before (c :: a))

/-- Blanks before something other than a parenthesis open no call. -/
theorem afterParen_of_not_paren {blanks rest : Text} {c : Char}
    (hblanks : ∀ d ∈ blanks, isBlank d = true) (hblank : isBlank c = false) (hc : c ≠ '(') :
    afterParen (blanks ++ c :: rest) = none := by
  rw [afterParen, List.dropWhile_append_of_pos hblanks,
    List.dropWhile_cons_of_neg (by simp [hblank])]
  exact if_neg hc

theorem Widened.afterParen (hx : PassedOver x) (h : Widened x b t t') :
    Option.Rel (Widened x b) (afterParen t) (afterParen t') := by
  cases h with
  | after h =>
    refine rel_of_le fun after hafter => Nat.le_trans ?_ h
    obtain ⟨blanks, -, rfl⟩ := exists_of_afterParen hafter
    simp only [List.length_append, List.length_cons]
    omega
  | before a =>
    have hsplit := List.takeWhile_append_dropWhile (p := isBlank) (l := a)
    have hblanks : ∀ d ∈ a.takeWhile isBlank, isBlank d = true := fun d hd =>
      List.all_eq_true.mp List.all_takeWhile d hd
    cases hdrop : a.dropWhile isBlank with
    | nil =>
      -- only blanks before the addition
      rw [hdrop, List.append_nil] at hsplit
      rw [hsplit] at hblanks
      obtain ⟨blanks, c, rest, rfl, hblanks', hblank, hc⟩ := hx.not_paren
      rw [afterParen_of_not_paren hblanks (by decide) (by decide), List.append_assoc,
        ← List.append_assoc a, List.cons_append, afterParen_of_not_paren ?_ hblank hc]
      · exact .none
      · intro d hd
        exact (List.mem_append.mp hd).elim (hblanks d) (hblanks' d)
    | cons c r =>
      have hblank : isBlank c = false := by
        have := List.head?_dropWhile_not isBlank a
        rw [hdrop] at this
        simpa using this
      rw [hdrop] at hsplit
      rw [← hsplit, List.append_assoc, List.append_assoc, List.cons_append, List.cons_append]
      by_cases hc : c = '('
      · rw [hc, afterParen_append hblanks, afterParen_append hblanks]
        exact .some (.before r)
      · rw [afterParen_of_not_paren hblanks hblank hc, afterParen_of_not_paren hblanks hblank hc]
        exact .none

theorem Widened.afterCallOpening (hx : PassedOver x) (h : Widened x b t t') :
    Option.Rel (Widened x b) (afterCallOpening t) (afterCallOpening t') := by
  have hrel := h.afterTypeArguments hx
  unfold SourceStamp.afterCallOpening
  generalize SourceStamp.afterTypeArguments t = o at hrel
  generalize SourceStamp.afterTypeArguments t' = o' at hrel
  cases hrel with
  | none => exact .none
  | some h => exact h.afterParen hx

/-! ## Callees -/

/-- A name ends where a character stands that no name holds. -/
theorem isPrefixOf_append_of_callee {name : Text} (hname : ∀ c ∈ name, isCalleeChar c = true)
    {w : Text} (hw : ∀ c, w.head? = some c → isCalleeChar c = false) (a : Text) :
    name.isPrefixOf (a ++ w) = name.isPrefixOf a := by
  induction name generalizing a with
  | nil => rfl
  | cons n name ih =>
    obtain ⟨hn, hname⟩ := List.forall_mem_cons.mp hname
    cases a with
    | nil =>
      cases w with
      | nil => rfl
      | cons c w =>
        have hne : (n == c) = false :=
          beq_eq_false_iff_ne.mpr (ne_of_isCalleeChar hn (hw c rfl))
        show (n == c && _) = false
        rw [hne, Bool.false_and]
    | cons c a =>
      show (n == c && name.isPrefixOf (a ++ w)) = (n == c && name.isPrefixOf a)
      rw [ih hname]

/-- The same callee, with related texts after it. -/
def WidenedFound (x b : Text) (found found' : Text × CalleeKind × Text) : Prop :=
  found.1 = found'.1 ∧ found.2.1 = found'.2.1 ∧ Widened x b found.2.2 found'.2.2

theorem Widened.tryCallee (hx : PassedOver x) (h : Widened x b t t') {callee : Text × CalleeKind}
    (hname : ∀ c ∈ callee.1, isCalleeChar c = true) :
    Option.Rel (WidenedFound x b) (tryCallee t callee) (tryCallee t' callee) := by
  have hsame : callee.1.isPrefixOf t = callee.1.isPrefixOf t' ∧
      (callee.1.isPrefixOf t = true →
        Widened x b (t.drop callee.1.length) (t'.drop callee.1.length)) := by
    cases h with
    | after h =>
      refine ⟨rfl, fun _ => .after (Nat.le_trans ?_ h)⟩
      rw [List.length_drop]
      exact Nat.sub_le _ _
    | before a =>
      -- neither the addition nor the parenthesis goes on with a name that is cut there
      have hfirst : ∀ c, (x ++ ')' :: b).head? = some c → isCalleeChar c = false := by
        obtain ⟨d, rest, rfl, hd⟩ := hx.first
        intro c hc
        exact Option.some.inj hc ▸ hd
      have hparen : ∀ c, (')' :: b).head? = some c → isCalleeChar c = false := by
        intro c hc
        obtain rfl := Option.some.inj hc
        decide
      rw [isPrefixOf_append_of_callee hname hfirst, isPrefixOf_append_of_callee hname hparen]
      refine ⟨rfl, fun hprefix => ?_⟩
      have hlen := (List.isPrefixOf_iff_prefix.mp hprefix).length_le
      rw [List.drop_append_of_le_length hlen, List.drop_append_of_le_length hlen]
      exact .before _
  unfold SourceStamp.tryCallee
  rw [← hsame.1]
  split
  · next hprefix =>
    have hrel := (hsame.2 hprefix).afterCallOpening hx
    generalize SourceStamp.afterCallOpening (t.drop callee.1.length) = o at hrel
    generalize SourceStamp.afterCallOpening (t'.drop callee.1.length) = o' at hrel
    cases hrel with
    | none => exact .none
    | some h => exact .some ⟨rfl, rfl, h⟩
  · exact .none

theorem Widened.calleeAt (hx : PassedOver x) (h : Widened x b t t')
    {callees : List (Text × CalleeKind)}
    (hnames : ∀ callee ∈ callees, ∀ c ∈ callee.1, isCalleeChar c = true) :
    Option.Rel (WidenedFound x b) (calleeAt callees t) (calleeAt callees t') := by
  rw [calleeAt_eq, calleeAt_eq]
  induction callees with
  | nil => exact .none
  | cons callee callees ih =>
    obtain ⟨hname, hnames⟩ := List.forall_mem_cons.mp hnames
    have hrel := h.tryCallee hx hname
    rw [List.findSome?_cons, List.findSome?_cons]
    generalize SourceStamp.tryCallee t callee = o at hrel
    generalize SourceStamp.tryCallee t' callee = o' at hrel
    cases hrel with
    | none => exact ih hnames
    | some h => exact .some h

end Steps

end SourceStamp
