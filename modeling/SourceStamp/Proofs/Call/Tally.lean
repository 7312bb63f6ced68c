import SourceStamp.Proofs.Call.Sights

/-!
# Arguments by what they show

The end of a call and the number of its arguments can be told from the sights of its text.

- `closingIn`: the search for the closing parenthesis, and `closingParen_eq_closingIn`.
- `Tally`: what counts of an outline; `Outline.TalliedBy` is kept by every visit, and
  `ArgumentLayout.isEmpty_eq`, `count_eq`, `trailing_eq` read a layout off the tally of its text.
-/

namespace SourceStamp

open Outline (isOpener isCloser)

/-! ## The closing parenthesis -/

/-- The place of the first closing parenthesis in code that closes none of the ones before it, when
`depth` parentheses are open at the start. -/
def closingIn (depth : Nat) : List Sight → Option Nat
  | [] => none
  | .code c :: l =>
    if c = '(' then (closingIn (depth + 1) l).map (· + 1)
    else if c = ')' then
      match depth with
      | 0 => some 0
      | d + 1 => (closingIn d l).map (· + 1)
    else (closingIn depth l).map (· + 1)
  | _ :: l => (closingIn depth l).map (· + 1)

/-- The sight is a parenthesis in code. -/
def Sight.isParen (s : Sight) : Bool := s == .code '(' || s == .code ')'

theorem closingIn_open (depth : Nat) (l : List Sight) :
    closingIn depth (.code '(' :: l) = (closingIn (depth + 1) l).map (· + 1) := by
  cases depth <;> exact if_pos rfl

theorem closingIn_close_zero (l : List Sight) : closingIn 0 (.code ')' :: l) = some 0 := rfl

theorem closingIn_close_succ (depth : Nat) (l : List Sight) :
    closingIn (depth + 1) (.code ')' :: l) = (closingIn depth l).map (· + 1) := rfl

theorem closingIn_cons_of_not_isParen {s : Sight} (h : s.isParen = false) (depth : Nat)
    (l : List Sight) : closingIn depth (s :: l) = (closingIn depth l).map (· + 1) := by
  cases s with
  | hidden => cases depth <;> rfl
  | text => cases depth <;> rfl
  | code c =>
    have hc : c ≠ '(' ∧ c ≠ ')' := by simpa [Sight.isParen] using h
    cases depth <;> exact (if_neg hc.1).trans (if_neg hc.2)

/-- What a visit shows is a parenthesis exactly when it is one in code. -/
theorem Visit.sight_eq_code_iff {v : Visit} {c : Char}
    (hc : isOpener c = true ∨ isCloser c = true) :
    v.sight = .code c ↔ v.state = .code ∧ v.char = c := by
  unfold Visit.sight
  constructor
  · intro h
    split at h
    · split at h
      · next hcode => cases h; exact ⟨LexicalState.isCode_iff.mp hcode, rfl⟩
      · cases h
    · cases h
  · rintro ⟨hcode, rfl⟩
    rw [if_pos (Outline.isSignificant_of_bracket hcode hc), hcode]
    rfl

/-- The search among visits finds the parenthesis that the search among sights finds. -/
theorem closingAmong_visits (depth : Nat) (r : Reading) (p : Nat) (t : Text) :
    closingAmong depth (r.visits p t) = (closingIn depth (r.sights none t)).map (p + ·) := by
  induction t generalizing depth r p with
  | nil => rfl
  | cons c t ih =>
    have hnext : ∀ (o : Option Nat), o.map (p + 1 + ·) = (o.map (· + 1)).map (p + ·) := by
      intro o
      cases o with
      | none => rfl
      | some n => simp only [Option.map_some, Nat.add_assoc, Nat.add_comm 1 n]
    rw [Reading.sights_cons, Option.or_none]
    cases hh : r.halfway with
    | true =>
      -- the second character of a delimiter is neither visited nor seen
      rw [Reading.visits_of_halfway hh, ih, hnext, Reading.sight, hh]
      rfl
    | false =>
      rw [Reading.visits_of_not_halfway hh, closingAmong_cons, ih, ih, hnext, hnext]
      have hsight : r.sight c t.head? = Visit.sight ⟨p, c, t.head?, r.state⟩ := by
        rw [Reading.sight, hh]
        rfl
      have hopen := @Visit.sight_eq_code_iff ⟨p, c, t.head?, r.state⟩ '(' (.inl (by decide))
      have hclose := @Visit.sight_eq_code_iff ⟨p, c, t.head?, r.state⟩ ')' (.inr (by decide))
      rw [← hsight] at hopen hclose
      by_cases hcode : r.state = .code
      · rw [if_neg (fun hne => hne hcode)]
        by_cases h1 : c = '('
        · rw [if_pos h1, hopen.mpr ⟨hcode, h1⟩, closingIn_open]
        · rw [if_neg h1]
          by_cases h2 : c = ')'
          · rw [if_pos h2, hclose.mpr ⟨hcode, h2⟩]
            cases depth with
            | zero => rfl
            | succ depth =>
              dsimp only
              rw [ih, hnext, closingIn_close_succ]
          · rw [if_neg h2, closingIn_cons_of_not_isParen]
            simp [Sight.isParen, hopen, hclose, h1, h2]
      · rw [if_pos hcode, closingIn_cons_of_not_isParen]
        simp [Sight.isParen, hopen, hclose, hcode]

/-- **The end of a call**, by what the source text shows after its opening parenthesis. -/
theorem closingParen_eq_closingIn {source : Text} {opened : Nat} (h : CodeAt source opened '(') :
    closingParen 0 (Scanner.ofCheckpoint source ⟨opened + 1, .code⟩) =
      (closingIn 0 ((sights source).drop (opened + 1))).map (opened + 1 + ·) := by
  have hcode := h.inCode_succ (by decide)
  have hfollows := Scanner.ofCheckpoint_follows h.lt hcode.state_eq hcode.halfway_eq
  rw [Scanner.closingParen_eq, hfollows.visits_eq, drop_sights]
  exact closingAmong_visits 0 _ _ _

/-- A text without parentheses in code does not change which one closes. -/
theorem closingIn_append_of_no_paren {x : List Sight} (hx : ∀ s ∈ x, s.isParen = false)
    (depth : Nat) (w : List Sight) :
    closingIn depth (x ++ w) = (closingIn depth w).map (· + x.length) := by
  induction x with
  | nil => exact Option.map_id'.symm
  | cons s x ih =>
    obtain ⟨hs, hx⟩ := List.forall_mem_cons.mp hx
    rw [List.cons_append, closingIn_cons_of_not_isParen hs, ih hx, Option.map_map]
    congr 1

/-- With such a text put in, the closing parenthesis is found where it is moved to. -/
theorem closingIn_insert {x : List Sight} (hx : ∀ s ∈ x, s.isParen = false) (depth : Nat)
    (u w : List Sight) :
    closingIn depth (u ++ (x ++ w)) =
      (closingIn depth (u ++ w)).map fun n => if n < u.length then n else n + x.length := by
  induction u generalizing depth with
  | nil => exact closingIn_append_of_no_paren hx depth w
  | cons s u ih =>
    have hmoved : ∀ (o : Option Nat),
        (o.map fun n => if n < u.length then n else n + x.length).map (· + 1) =
          (o.map (· + 1)).map fun n => if n < u.length + 1 then n else n + x.length := by
      intro o
      cases o with
      | none => rfl
      | some n =>
        simp only [Option.map_some, Nat.add_lt_add_iff_right, Option.some_inj]
        split <;> omega
    rw [List.cons_append, List.cons_append, List.length_cons]
    cases hs : s.isParen with
    | false =>
      rw [closingIn_cons_of_not_isParen hs, closingIn_cons_of_not_isParen hs, ih, hmoved]
    | true =>
      simp only [Sight.isParen, Bool.or_eq_true, beq_iff_eq] at hs
      rcases hs with rfl | rfl
      · rw [closingIn_open, closingIn_open, ih, hmoved]
      · cases depth with
        | zero => simp [closingIn_close_zero]
        | succ depth => rw [closingIn_close_succ, closingIn_close_succ, ih, hmoved]

/-! ## The number of arguments -/

/-- What counts of an outline. -/
structure Tally where
  /-- The number of open brackets. -/
  depth : Nat
  /-- The number of commas outside all brackets. -/
  commas : Nat
  /-- Whether anything significant was seen. -/
  seen : Bool
  /-- Whether the last significant character is one of those commas. -/
  trailing : Bool
  deriving DecidableEq, Repr

namespace Tally

/-- Nothing is counted yet. -/
def empty : Tally := ⟨0, 0, false, false⟩

/-- The tally after one more sight. -/
def add (t : Tally) : Sight → Tally
  | .hidden => t
  | .text => { t with seen := true, trailing := false }
  | .code c =>
    if isOpener c then ⟨t.depth + 1, t.commas, true, false⟩
    else if isCloser c then ⟨t.depth - 1, t.commas, true, false⟩
    else if c = ',' ∧ t.depth = 0 then ⟨t.depth, t.commas + 1, true, true⟩
    else ⟨t.depth, t.commas, true, false⟩

theorem add_opener {c : Char} (h : isOpener c = true) (t : Tally) :
    t.add (.code c) = ⟨t.depth + 1, t.commas, true, false⟩ := if_pos h

theorem add_closer {c : Char} (h : isOpener c = false) (h' : isCloser c = true) (t : Tally) :
    t.add (.code c) = ⟨t.depth - 1, t.commas, true, false⟩ :=
  (if_neg (by simp [h])).trans (if_pos h')

/-- The number of arguments; a comma at the end of the list adds none. -/
def count (t : Tally) : Nat :=
  if t.seen then (if t.trailing then t.commas else t.commas + 1) else 0

end Tally

/-- The tally of all sights of a text. -/
def tally (l : List Sight) : Tally := l.foldl Tally.add .empty

namespace Outline

@[simp] theorem mark_commas (o : Outline) (v : Visit) : (o.mark v).commas = o.commas := by
  unfold mark
  split <;> rfl

@[simp] theorem touch_commas (o : Outline) (v : Visit) : (o.touch v).commas = o.commas := rfl

@[simp] theorem close_commas (o : Outline) (v : Visit) : (o.close v).commas = o.commas := by
  unfold close
  split
  · rfl
  · dsimp only
    split <;> rfl

theorem addCode_commas (o : Outline) (v : Visit) :
    (o.addCode v).commas =
      if isOpener v.char then o.commas
      else if isCloser v.char then o.commas
      else if v.char = ',' ∧ o.openBrackets = [] then v.position :: o.commas
      else o.commas := by
  have hmarked : (if v.char = ',' then o else o.mark v).commas = o.commas := by split <;> simp
  unfold addCode
  dsimp only
  rw [touch_commas]
  split
  · exact hmarked
  · split
    · rw [close_commas, hmarked]
    · split
      · rfl
      · exact hmarked

/-- The tally counts what the outline knows of the text before an offset. -/
structure TalliedBy (o : Outline) (t : Tally) (position : Nat) : Prop where
  depth_eq : o.openBrackets.length = t.depth
  commas_eq : o.commas.length = t.commas
  seen_eq : o.last.isSome = t.seen
  trailing_eq : (o.last.any fun l => o.commas.head? == some l.1) = t.trailing
  commas_lt : ∀ p ∈ o.commas, p < position

theorem talliedBy_empty (position : Nat) : TalliedBy .empty .empty position :=
  ⟨rfl, rfl, rfl, rfl, fun _ h => nomatch h⟩

variable {o : Outline} {t : Tally} {v : Visit}

theorem TalliedBy.of_le (h : TalliedBy o t v.position) {position : Nat}
    (hle : v.position ≤ position) : TalliedBy o t position :=
  { h with commas_lt := fun p hp => Nat.lt_of_lt_of_le (h.commas_lt p hp) hle }

/-- A significant visit that adds no comma leaves none at the end. -/
theorem TalliedBy.touched (h : TalliedBy o t v.position) {o' : Outline}
    (hlast : o'.last = some (v.position, v.char)) (hcommas : o'.commas = o.commas) {depth : Nat}
    (hdepth : o'.openBrackets.length = depth) :
    TalliedBy o' ⟨depth, t.commas, true, false⟩ (v.position + 1) := by
  refine ⟨hdepth, hcommas ▸ h.commas_eq, by rw [hlast]; rfl, ?_, ?_⟩
  · rw [hlast, hcommas]
    cases hhead : o.commas with
    | nil => rfl
    | cons p commas =>
      have := h.commas_lt p (hhead ▸ List.mem_cons_self)
      simp only [Option.any_some, List.head?_cons, beq_eq_false_iff_ne, ne_eq, Option.some_inj]
      omega
  · intro p hp
    rw [hcommas] at hp
    exact Nat.lt_succ_of_lt (h.commas_lt p hp)

/-- A visit of code. -/
theorem TalliedBy.addCode (h : TalliedBy o t v.position) :
    TalliedBy (o.addCode v) (t.add (.code v.char)) (v.position + 1) := by
  have hlast := addCode_last o v
  have hcommas := addCode_commas o v
  have hopen := addCode_openBrackets o v
  unfold Tally.add
  dsimp only
  split
  · next hopener =>
    rw [if_pos hopener] at hcommas hopen
    exact h.touched hlast hcommas (by rw [hopen, List.length_cons, h.depth_eq])
  · next hopener =>
    rw [if_neg hopener] at hcommas hopen
    split
    · next hcloser =>
      rw [if_pos hcloser] at hcommas hopen
      exact h.touched hlast hcommas (by rw [hopen, List.length_tail, h.depth_eq])
    · next hcloser =>
      rw [if_neg hcloser] at hcommas hopen
      have hdepth : (o.addCode v).openBrackets.length = t.depth := hopen ▸ h.depth_eq
      -- the tally counts the brackets that the outline keeps
      have houter : t.depth = 0 ↔ o.openBrackets = [] := by
        rw [← h.depth_eq, List.length_eq_zero_iff]
      simp only [houter]
      split
      · next hcomma =>
        rw [if_pos hcomma] at hcommas
        refine ⟨hdepth, ?_, by rw [hlast]; rfl, ?_, ?_⟩
        · rw [hcommas, List.length_cons, h.commas_eq]
        · rw [hlast, hcommas]
          simp
        · intro p hp
          rw [hcommas] at hp
          rcases List.mem_cons.mp hp with rfl | hp
          · exact Nat.lt_succ_self _
          · exact Nat.lt_succ_of_lt (h.commas_lt p hp)
      · next hcomma =>
        rw [if_neg hcomma] at hcommas
        exact h.touched hlast hcommas hdepth

/-- The step: one more visit for the outline is one more sight for the tally. -/
theorem TalliedBy.add (h : TalliedBy o t v.position) :
    TalliedBy (o.add v) (t.add v.sight) (v.position + 1) := by
  cases hs : v.isSignificant with
  | false =>
    rw [add_of_not_isSignificant hs, Visit.sight, hs]
    exact h.of_le (Nat.le_succ _)
  | true =>
    rw [add_of_isSignificant hs, Visit.sight, hs]
    cases hcode : v.state.isCode with
    | false =>
      have hopen : ((o.mark v).touch v).openBrackets.length = t.depth := by
        rw [touch_openBrackets, mark_openBrackets, h.depth_eq]
      exact @TalliedBy.touched o t v h ((o.mark v).touch v) rfl (mark_commas o v) _ hopen
    | true => exact h.addCode

/-- The run: the outline of a text is tallied by the sights of the text. -/
theorem TalliedBy.foldl (r : Reading) (p : Nat) (x : Text) (h : TalliedBy o t p) :
    TalliedBy ((r.visits p x).foldl Outline.add o) ((r.sights none x).foldl Tally.add t)
      (p + x.length) := by
  induction x generalizing r p o t with
  | nil => exact h
  | cons c x ih =>
    rw [Reading.sights_cons, Option.or_none, List.length_cons, Nat.add_comm x.length,
      ← Nat.add_assoc]
    cases hh : r.halfway with
    | true =>
      rw [Reading.visits_of_halfway hh, Reading.sight, hh]
      exact ih _ _ (@TalliedBy.of_le o t ⟨p, c, none, r.state⟩ h _ (Nat.le_succ p))
    | false =>
      rw [Reading.visits_of_not_halfway hh, Reading.sight, hh]
      exact ih _ _ (@TalliedBy.add o t ⟨p, c, x.head?, r.state⟩ h)

theorem talliedBy_tally (x : Text) :
    TalliedBy ((Scanner.start x).visits.foldl Outline.add .empty) (tally (sights x)) x.length := by
  have h := TalliedBy.foldl Reading.start 0 x (talliedBy_empty 0)
  rw [Nat.zero_add] at h
  rw [Scanner.visits_eq]
  exact h

end Outline

namespace ArgumentLayout

variable (base : Int) (x : Text)

theorem isEmpty_eq : (ofText base x).isEmpty = !(tally (sights x)).seen := by
  rw [← (Outline.talliedBy_tally x).seen_eq, ofText, ofOutline]
  split <;> next h => rw [h]; rfl

theorem trailing_eq : (ofText base x).trailing = (tally (sights x)).trailing := by
  rw [← (Outline.talliedBy_tally x).trailing_eq, ofText, ofOutline]
  split <;> next h => rw [h]; rfl

/-- **The number of arguments** is the one of the tally. -/
theorem count_eq : (ofText base x).count = (tally (sights x)).count := by
  have h := Outline.talliedBy_tally x
  rw [Tally.count, ← h.seen_eq, ← h.trailing_eq, ← h.commas_eq, ofText, ofOutline]
  split <;> next h => rw [h]; rfl

end ArgumentLayout

end SourceStamp
