import SourceStamp.Proofs.Call.Layout

/-!
# What a reader sees of a text

To find the end of a call, and to count its arguments, it does not matter where a character stands,
but only what it shows: a character of code, a part of a string or template, or nothing.

- `Sight`, `sights`: what each character of a text shows.
- `sights_append`: the sights of a text that ends in code, and of what follows it.
- `drop_sights`: from an offset on, they are those of the reading there.
- `StandsAt.sights_eq`: a text inside the source text shows what it shows on its own.
- `sights_eq_code_iff`: which characters are seen in code.
-/

namespace SourceStamp

/-- What a character shows. -/
inductive Sight where
  /-- Nothing: it is a blank or a part of a comment. -/
  | hidden
  /-- A part of a string or template. -/
  | text
  /-- A character of code. -/
  | code (c : Char)
  deriving DecidableEq, Repr

/-- What a visit shows. -/
def Visit.sight (v : Visit) : Sight :=
  if v.isSignificant then (if v.state.isCode then .code v.char else .text) else .hidden

namespace Reading

/-- What a character shows to a reader. The second character of a delimiter is hidden. -/
def sight (r : Reading) (c : Char) (following : Option Char) : Sight :=
  if r.halfway then .hidden else Visit.sight ⟨0, c, following, r.state⟩

/-- What a text shows to a reader. -/
def sights (following : Option Char) (r : Reading) : Text → List Sight
  | [] => []
  | c :: t =>
    r.sight c (t.head?.or following) :: (r.next c (t.head?.or following)).sights following t

end Reading

/-- What a text shows. -/
def sights (t : Text) : List Sight := Reading.start.sights none t

namespace Reading

@[simp] theorem sights_nil (following : Option Char) (r : Reading) : r.sights following [] = [] :=
  rfl

@[simp] theorem sights_cons (following : Option Char) (r : Reading) (c : Char) (t : Text) :
    r.sights following (c :: t) =
      r.sight c (t.head?.or following) ::
        (r.next c (t.head?.or following)).sights following t := rfl

@[simp] theorem length_sights (following : Option Char) (r : Reading) (t : Text) :
    (r.sights following t).length = t.length := by
  induction t generalizing r with
  | nil => rfl
  | cons c t ih => rw [sights_cons, List.length_cons, ih, List.length_cons]

/-- The sights of two stretches, one after the other. -/
theorem sights_append (following : Option Char) (r : Reading) (x y : Text) :
    r.sights following (x ++ y) =
      r.sights (y.head?.or following) x ++
        (r.read (y.head?.or following) x).sights following y := by
  induction x generalizing r with
  | nil => rfl
  | cons c t ih =>
    rw [List.cons_append, sights_cons, sights_cons, ih, List.head?_append, Option.or_assoc]
    rfl

/-! ## What sights depend on -/

theorem Agree.sight_eq {r r' : Reading} (h : r.Agree r') (c : Char) (following : Option Char) :
    r.sight c following = r'.sight c following := by
  rw [sight, sight, h.halfway_eq, h.state_eq]

/-- Readers that agree see the same. -/
theorem Agree.sights_eq {r r' : Reading} (h : r.Agree r') (following : Option Char) (t : Text) :
    r.sights following t = r'.sights following t := by
  cases t with
  | nil => rfl
  | cons c t => rw [sights_cons, sights_cons, h.sight_eq, h.next_eq]

/-- The character after the next one matters only if it can complete a comment opener. -/
theorem sight_congr {f f' : Option Char} (h : f ≠ some '/' ∧ f ≠ some '*')
    (h' : f' ≠ some '/' ∧ f' ≠ some '*') (r : Reading) (c : Char) :
    r.sight c f = r.sight c f' := by
  simp [sight, Visit.sight, Visit.isSignificant, Outline.opensComment, h, h']

theorem sights_congr {f f' : Option Char} (h : f ≠ some '/' ∧ f ≠ some '*')
    (h' : f' ≠ some '/' ∧ f' ≠ some '*') (r : Reading) (t : Text) :
    r.sights f t = r.sights f' t := by
  induction t generalizing r with
  | nil => rfl
  | cons c t ih =>
    rw [sights_cons, sights_cons, ih]
    cases t with
    | nil => exact congrArg (· :: []) (sight_congr h h' r c)
    | cons d t => rfl

/-- When a character is seen in code. -/
theorem sight_eq_code_iff {r : Reading} {c d : Char} {following : Option Char} :
    r.sight d following = .code c ↔
      r.InCode ∧ Visit.isSignificant ⟨0, d, following, r.state⟩ = true ∧ d = c := by
  constructor
  · intro h
    unfold sight Visit.sight at h
    split at h
    · cases h
    · next hhalf =>
      split at h
      · next hsig =>
        split at h
        · next hcode =>
          cases h
          exact ⟨⟨LexicalState.isCode_iff.mp hcode, by simpa using hhalf⟩, hsig, rfl⟩
        · cases h
      · cases h
  · rintro ⟨hcode, hsig, rfl⟩
    rw [sight, hcode.halfway_eq, if_neg Bool.false_ne_true, Visit.sight, if_pos hsig,
      hcode.state_eq]
    rfl

/-- What is seen of a character before code does not depend on what follows, unless that completes
the opener of a comment. -/
theorem sight_change_following {r : Reading} {c : Char} {f f' : Option Char}
    (h : (r.next c f).InCode) (h1 : f' ≠ some '/') (h2 : f' ≠ some '*') :
    r.sight c f' = r.sight c f := by
  by_cases hh : r.halfway = true
  · rw [sight, sight, if_pos hh, if_pos hh]
  by_cases hslash : c = '/'
  · subst hslash
    by_cases hcode : r.state = .code
    · -- code goes on after the slash, so it opens no comment
      have hs := h.state_eq
      rw [next_of_not_halfway (by simpa using hh)] at hs
      have hf1 : f ≠ some '/' := by
        rintro rfl
        simp [LexicalState.move, hcode] at hs
      have hf2 : f ≠ some '*' := by
        rintro rfl
        simp [LexicalState.move, hcode] at hs
      exact sight_congr ⟨h1, h2⟩ ⟨hf1, hf2⟩ r '/'
    · have hcode : r.state.isCode = false :=
        Bool.eq_false_iff.mpr (mt LexicalState.isCode_iff.mp hcode)
      simp [sight, Visit.sight, Visit.isSignificant, hcode]
  · simp [sight, Visit.sight, Visit.isSignificant, Outline.opensComment, hslash]

theorem sights_change_following {r : Reading} {t : Text} {f f' : Option Char}
    (h : (r.read f t).InCode) (h1 : f' ≠ some '/') (h2 : f' ≠ some '*') :
    r.sights f' t = r.sights f t := by
  induction t generalizing r with
  | nil => rfl
  | cons c t ih =>
    cases t with
    | nil => exact congrArg (· :: []) (sight_change_following h h1 h2)
    | cons d t => exact congrArg (List.cons _) (ih h)

/-- Only characters of a text are seen in code. -/
theorem mem_of_code_mem_sights {following : Option Char} {r : Reading} {t : Text} {c : Char}
    (h : .code c ∈ r.sights following t) : c ∈ t := by
  induction t generalizing r with
  | nil => cases h
  | cons d t ih =>
    rcases List.mem_cons.mp h with h | h
    · obtain ⟨-, -, rfl⟩ := sight_eq_code_iff.mp h.symm
      exact List.mem_cons_self
    · exact List.mem_cons_of_mem d (ih h)

end Reading

/-! ## The sights of a source text -/

@[simp] theorem length_sights (t : Text) : (sights t).length = t.length :=
  Reading.length_sights none _ t

/-- A text that ends in code is seen without what follows it, and what follows without the text. -/
theorem sights_append {x y : Text} (hcode : (Reading.start.read y.head? x).InCode) :
    sights (x ++ y) = sights x ++ sights y := by
  have hx : sights x = Reading.start.sights y.head? x :=
    Reading.sights_change_following hcode nofun nofun
  rw [hx, sights, Reading.sights_append, Option.or_none,
    (hcode.agree Reading.start_inCode).sights_eq]
  rfl

/-- Closed texts are seen one by one. -/
theorem sights_append_of_closed {x : Text} (hx : Reading.Closed x) (y : Text) :
    sights (x ++ y) = sights x ++ sights y :=
  sights_append (hx _ _ Reading.start_inCode)

/-- So is a text on both sides of a place in code. -/
theorem sights_split {t : Text} {i : Nat} (hi : (readingAt t i).InCode) :
    sights t = sights (t.take i) ++ sights (t.drop i) := by
  have happend := @sights_append (t.take i) (t.drop i) (by rw [List.head?_drop]; exact hi)
  rwa [List.take_append_drop] at happend

/-- From an offset on, a text shows what it shows to a reader there. -/
theorem drop_sights (t : Text) (p : Nat) :
    (sights t).drop p = (readingAt t p).sights none (t.drop p) := by
  rcases Nat.lt_or_ge t.length p with hlt | hle
  · rw [List.drop_eq_nil_of_le (Nat.le_of_lt hlt),
      List.drop_eq_nil_of_le (by rw [length_sights]; exact Nat.le_of_lt hlt)]
    rfl
  · have hsplit := Reading.sights_append none Reading.start (t.take p) (t.drop p)
    rw [List.take_append_drop, Option.or_none, List.head?_drop] at hsplit
    have hlen : (Reading.start.sights t[p]? (t.take p)).length = p := by
      rw [Reading.length_sights, List.length_take, Nat.min_eq_left hle]
    rw [sights, hsplit, List.drop_left' hlen]
    rfl

/-- A text inside the source text shows what it shows on its own. -/
theorem StandsAt.sights_eq {source t rest : Text} {base : Nat} (h : StandsAt source base t rest) :
    ((sights source).drop base).take t.length = sights t := by
  have hhead : rest.head? ≠ some '/' ∧ rest.head? ≠ some '*' := by
    have := h.not_isSecond
    simp only [Reading.IsSecond, not_or] at this
    exact ⟨this.1, this.2.1⟩
  rw [drop_sights, h.drop_eq, Reading.sights_append, Option.or_none,
    List.take_left' (Reading.length_sights _ _ _),
    (h.inCode.agree Reading.start_inCode).sights_eq]
  exact @Reading.sights_congr _ none hhead (by simp) _ _

theorem getElem?_sights (t : Text) (p : Nat) :
    (sights t)[p]? = t[p]?.map fun c => (readingAt t p).sight c t[p + 1]? := by
  rw [← List.head?_drop, drop_sights]
  cases hdrop : t.drop p with
  | nil =>
    rw [List.getElem?_eq_none (List.drop_eq_nil_iff.mp hdrop)]
    rfl
  | cons c r =>
    have hget : t[p]? = some c := by rw [← List.head?_drop, hdrop, List.head?_cons]
    have hnext : t[p + 1]? = r.head? := by
      rw [← List.head?_drop, ← List.drop_drop, hdrop, List.drop_one, List.tail_cons]
    rw [hget, hnext, Reading.sights_cons, Option.or_none]
    rfl

/-- A character is seen in code exactly when it stands in code and is significant. -/
theorem sights_eq_code_iff {t : Text} {p : Nat} {c : Char} :
    (sights t)[p]? = some (.code c) ↔ CodeAt t p c ∧ isSignificantAt t p = true := by
  rw [getElem?_sights]
  constructor
  · intro h
    obtain ⟨d, hget, hsight⟩ := Option.map_eq_some_iff.mp h
    obtain ⟨hcode, hsig, rfl⟩ := Reading.sight_eq_code_iff.mp hsight
    refine ⟨⟨hget, hcode⟩, ?_⟩
    rw [isSignificantAt, hget, hcode.halfway_eq]
    exact hsig
  · rintro ⟨hat, hsig⟩
    rw [isSignificantAt, hat.get_eq, hat.inCode.halfway_eq] at hsig
    rw [hat.get_eq, Option.map_some]
    exact congrArg some (Reading.sight_eq_code_iff.mpr ⟨hat.inCode, hsig, rfl⟩)

/-- A bracket in code is seen. -/
theorem CodeAt.sights_eq {t : Text} {p : Nat} {c : Char} (h : CodeAt t p c)
    (hc : Outline.isOpener c = true ∨ Outline.isCloser c = true) :
    (sights t)[p]? = some (.code c) := by
  refine sights_eq_code_iff.mpr ⟨h, h.isSignificantAt ?_ ?_⟩
  · exact hc.elim Outline.isBlank_of_isOpener Outline.isBlank_of_isCloser
  · exact hc.elim Outline.ne_slash_of_isOpener Outline.ne_slash_of_isCloser

end SourceStamp
