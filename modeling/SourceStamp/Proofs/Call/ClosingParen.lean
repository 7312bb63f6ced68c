import SourceStamp.Call.ArgumentList
import SourceStamp.Proofs.Call.Place
import SourceStamp.Proofs.Lexis.Visits

/-!
# Closing parentheses

The argument list of a call ends at the parenthesis that closes the call.

- `closingAmong`: the search for that parenthesis among the visits of a scan, and
  `Scanner.closingParen_eq`: the scan for it is this search.
- `Balanced`: a parenthesis in code with the one that closes it, and `Balanced.unique_close`: no two
  of them close at the same place.
- `ArgumentList.find_eq_some`, `ArgumentList.balanced_of_find`: an argument list that ends is the
  text of such a pair.
-/

namespace SourceStamp

/-- The position of the first visit of a closing parenthesis in code that closes none opened among
the visits before it, when `depth` parentheses are open at their start. -/
def closingAmong (depth : Nat) : List Visit → Option Nat
  | [] => none
  | v :: vs =>
    if v.state ≠ .code then closingAmong depth vs
    else if v.char = '(' then closingAmong (depth + 1) vs
    else if v.char = ')' then
      match depth with
      | 0 => some v.position
      | d + 1 => closingAmong d vs
    else closingAmong depth vs

theorem closingAmong_cons (depth : Nat) (v : Visit) (vs : List Visit) :
    closingAmong depth (v :: vs) =
      if v.state ≠ .code then closingAmong depth vs
      else if v.char = '(' then closingAmong (depth + 1) vs
      else if v.char = ')' then
        match depth with
        | 0 => some v.position
        | d + 1 => closingAmong d vs
      else closingAmong depth vs := by
  cases depth <;> rfl

/-- The scan for a closing parenthesis goes by the visits alone. -/
theorem Scanner.closingParen_eq (depth : Nat) (s : Scanner) :
    closingParen depth s = closingAmong depth s.visits := by
  fun_induction closingParen depth s with
  | case1 depth s hr => rw [Scanner.visits_of_nil hr]; rfl
  | case2 depth s c r hr hcode ih =>
    rw [ih, Scanner.visits_of_cons hr, closingAmong_cons, if_pos hcode]
  | case3 depth s r hcode hr ih =>
    rw [ih, Scanner.visits_of_cons hr, closingAmong_cons, if_neg hcode, if_pos rfl]
  | case4 s r hcode hr hne =>
    rw [Scanner.visits_of_cons hr, closingAmong_cons, if_neg hcode, if_neg hne, if_pos rfl]
  | case5 s r hcode d hr hne ih =>
    rw [ih, Scanner.visits_of_cons hr, closingAmong_cons, if_neg hcode, if_neg hne, if_pos rfl]
  | case6 depth s c r hr hcode hopen hclose ih =>
    rw [ih, Scanner.visits_of_cons hr, closingAmong_cons, if_neg hcode, if_neg hopen,
      if_neg hclose]

/-- The search ends at a visit of a closing parenthesis in code. -/
theorem exists_of_closingAmong {vs : List Visit} {depth close : Nat}
    (h : closingAmong depth vs = some close) :
    ∃ v ∈ vs, v.position = close ∧ v.char = ')' ∧ v.state = .code := by
  fun_induction closingAmong depth vs with
  | case1 => cases h
  | case4 v vs hcode hne hc =>
    injection h with h
    exact ⟨v, List.mem_cons_self, h, hc, by simpa using hcode⟩
  | case2 depth v vs _ ih =>
    obtain ⟨w, hw, hprops⟩ := ih h
    exact ⟨w, List.mem_cons_of_mem v hw, hprops⟩
  | case3 depth v vs _ _ ih =>
    obtain ⟨w, hw, hprops⟩ := ih h
    exact ⟨w, List.mem_cons_of_mem v hw, hprops⟩
  | case5 v vs _ _ _ d ih =>
    obtain ⟨w, hw, hprops⟩ := ih h
    exact ⟨w, List.mem_cons_of_mem v hw, hprops⟩
  | case6 depth v vs _ _ _ ih =>
    obtain ⟨w, hw, hprops⟩ := ih h
    exact ⟨w, List.mem_cons_of_mem v hw, hprops⟩

/-- With one more parenthesis open the search ends later. -/
theorem closingAmong_of_succ {vs : List Visit} (hsorted : vs.Pairwise (·.position < ·.position))
    {depth close : Nat} (h : closingAmong (depth + 1) vs = some close) :
    ∃ inner, closingAmong depth vs = some inner ∧ inner < close := by
  induction vs generalizing depth with
  | nil => cases h
  | cons v vs ih =>
    obtain ⟨hlt, hrest⟩ := List.pairwise_cons.mp hsorted
    rw [closingAmong_cons] at h ⊢
    split at h
    · next hcode => rw [if_pos hcode]; exact ih hrest h
    · next hcode =>
      rw [if_neg hcode]
      split at h
      · next hopen => rw [if_pos hopen]; exact ih hrest h
      · next hopen =>
        rw [if_neg hopen]
        split at h
        · next hclose =>
          rw [if_pos hclose]
          cases depth with
          | zero =>
            obtain ⟨w, hw, hpos, -, -⟩ := exists_of_closingAmong h
            exact ⟨v.position, rfl, hpos ▸ hlt w hw⟩
          | succ depth => exact ih hrest h
        · next hclose => rw [if_neg hclose]; exact ih hrest h

/-- With any number of parentheses open it ends no earlier than with none. -/
theorem closingAmong_of_depth {vs : List Visit} (hsorted : vs.Pairwise (·.position < ·.position))
    {depth close : Nat} (h : closingAmong depth vs = some close) :
    ∃ inner, closingAmong 0 vs = some inner ∧ inner ≤ close := by
  induction depth generalizing close with
  | zero => exact ⟨close, h, Nat.le_refl _⟩
  | succ depth ih =>
    obtain ⟨c, hc, hlt⟩ := closingAmong_of_succ hsorted h
    obtain ⟨inner, hinner, hle⟩ := ih hc
    exact ⟨inner, hinner, Nat.le_trans hle (Nat.le_of_lt hlt)⟩

/-- Past visits before the closing parenthesis the search goes on for the same one, with as many
parentheses open as they leave. -/
theorem closingAmong_append {earlier vs : List Visit} {depth close : Nat}
    (h : closingAmong depth (earlier ++ vs) = some close)
    (hearlier : ∀ v ∈ earlier, v.position ≠ close) :
    ∃ depth', closingAmong depth' vs = some close := by
  induction earlier generalizing depth with
  | nil => exact ⟨depth, h⟩
  | cons v earlier ih =>
    have hrest := fun w hw => hearlier w (List.mem_cons_of_mem v hw)
    rw [List.cons_append, closingAmong_cons] at h
    split at h
    · exact ih h hrest
    · split at h
      · exact ih h hrest
      · split at h
        · cases depth with
          | zero =>
            injection h with h
            exact absurd h (hearlier v List.mem_cons_self)
          | succ depth => exact ih h hrest
        · exact ih h hrest

/-! ## Pairs of parentheses -/

/-- A parenthesis in code and the one that closes it. -/
structure Balanced (source : Text) (opened closed : Nat) : Prop where
  opened_at : CodeAt source opened '('
  closed_eq : closingParen 0 (Scanner.ofCheckpoint source ⟨opened + 1, .code⟩) = some closed

namespace Balanced

variable {source : Text} {opened closed : Nat}

/-- The text after the parenthesis is read as code. -/
theorem inCode_succ (h : Balanced source opened closed) :
    (readingAt source (opened + 1)).InCode :=
  h.opened_at.inCode_succ (by decide)

theorem follows (h : Balanced source opened closed) :
    (Scanner.ofCheckpoint source ⟨opened + 1, .code⟩).Follows source :=
  Scanner.ofCheckpoint_follows h.opened_at.lt h.inCode_succ.state_eq h.inCode_succ.halfway_eq

/-- The parenthesis found is one, after the first, and in code. -/
theorem closed_spec (h : Balanced source opened closed) :
    opened < closed ∧ CodeAt source closed ')' := by
  have hclose := h.closed_eq
  rw [Scanner.closingParen_eq] at hclose
  obtain ⟨v, hv, rfl, hc, hstate⟩ := exists_of_closingAmong hclose
  obtain ⟨hle, hat⟩ := h.follows.visits_spec.1 v hv
  exact ⟨hle, hc ▸ hat.char_eq, hat.state_eq.trans hstate, hat.halfway_eq⟩

/-- **Nesting**: a pair that opens inside another one closes before it. -/
theorem closed_lt {opened' closed' : Nat} (h : Balanced source opened closed)
    (h' : Balanced source opened' closed') (hlt : opened < opened') (hin : opened' < closed) :
    closed' < closed := by
  have hf := h.follows
  -- the inner parenthesis as a place of the outer scan
  have hin' : (Scanner.ofCheckpoint source ⟨opened', .code⟩).Follows source :=
    Scanner.ofCheckpoint_follows (Nat.le_of_lt h'.opened_at.lt) h'.opened_at.inCode.state_eq
      h'.opened_at.inCode.halfway_eq
  obtain ⟨earlier, hvisits, hearlier⟩ := hf.visits_eq_append hin' hlt
  have hclose := h.closed_eq
  rw [Scanner.closingParen_eq, hvisits] at hclose
  obtain ⟨depth, hdepth⟩ := closingAmong_append hclose fun v hv =>
    Nat.ne_of_lt (Nat.lt_trans (hearlier v hv) hin)
  -- the first visit from there on opens one more
  obtain ⟨hget, hc⟩ := List.getElem?_eq_some_iff.mp h'.opened_at.get_eq
  have hrest : (Scanner.ofCheckpoint source ⟨opened', .code⟩).rest =
      '(' :: source.drop (opened' + 1) := by
    rw [← hc]
    exact List.drop_eq_getElem_cons hget
  have hstep : (Scanner.ofCheckpoint source ⟨opened', .code⟩).step.visits =
      (Scanner.ofCheckpoint source ⟨opened' + 1, .code⟩).visits := by
    have hmove : (LexicalState.code.move (Scanner.ofCheckpoint source ⟨opened', .code⟩).escaped '('
        (source.drop (opened' + 1)).head?) = ⟨.code, false⟩ := rfl
    rw [hin'.step.visits_eq, h'.follows.visits_eq,
      Scanner.step_of_not_takesNext hrest (congrArg LexicalState.Move.takesNext hmove)]
    rfl
  rw [Scanner.visits_of_cons hrest, closingAmong_cons, if_neg (by simp [Scanner.ofCheckpoint]),
    if_pos rfl, hstep] at hdepth
  obtain ⟨inner, hinner, hlt'⟩ := closingAmong_of_succ h'.follows.visits_spec.2 hdepth
  obtain ⟨inner', hinner', hle⟩ := closingAmong_of_depth h'.follows.visits_spec.2 hinner
  have hclose' := h'.closed_eq
  rw [Scanner.closingParen_eq, hinner'] at hclose'
  injection hclose' with hclose'
  exact hclose' ▸ Nat.lt_of_le_of_lt hle hlt'

/-- Two pairs that close at the same place are the same. -/
theorem unique_close {opened' : Nat} (h : Balanced source opened closed)
    (h' : Balanced source opened' closed) : opened = opened' := by
  rcases Nat.lt_trichotomy opened opened' with hlt | heq | hlt
  · exact absurd (h.closed_lt h' hlt h'.closed_spec.1) (Nat.lt_irrefl _)
  · exact heq
  · exact absurd (h'.closed_lt h hlt h.closed_spec.1) (Nat.lt_irrefl _)

end Balanced

/-! ## Argument lists -/

namespace ArgumentList

variable {source : Text} {opened closed : Nat}

theorem find_eq (source : Text) (opened : Nat) :
    find source opened =
      match closingParen 0 (Scanner.ofCheckpoint source ⟨opened + 1, .code⟩) with
      | some close =>
        ⟨opened, some close, (source.drop (opened + 1)).take (close - (opened + 1))⟩
      | none => ⟨opened, none, source.drop (opened + 1)⟩ := rfl

/-- The argument list of a pair of parentheses is the text between them. -/
theorem find_eq_some (h : Balanced source opened closed) :
    find source opened =
      ⟨opened, some closed, (source.drop (opened + 1)).take (closed - (opened + 1))⟩ := by
  rw [find_eq, h.closed_eq]

/-- An argument list that ends, ends with the parenthesis that closes the first one. -/
theorem balanced_of_find (hopen : CodeAt source opened '(') {close : Int}
    (h : (find source opened).closeParen = some close) :
    ∃ closed : Nat, close = closed ∧ Balanced source opened closed := by
  rw [find_eq] at h
  cases hclose : closingParen 0 (Scanner.ofCheckpoint source ⟨opened + 1, .code⟩) with
  | some closed =>
    rw [hclose] at h
    exact ⟨closed, (Option.some.inj h).symm, hopen, hclose⟩
  | none =>
    rw [hclose] at h
    cases h

/-- In the source text the closing parenthesis follows the arguments. -/
theorem drop_eq (h : Balanced source opened closed) :
    source.drop (opened + 1) =
      (find source opened).text ++ ')' :: source.drop (closed + 1) := by
  obtain ⟨hlt, hat⟩ := h.closed_spec
  obtain ⟨hlen, hget⟩ := List.getElem?_eq_some_iff.mp hat.get_eq
  have hsplit := List.take_append_drop (closed - (opened + 1)) (source.drop (opened + 1))
  rw [List.drop_drop, Nat.add_sub_cancel' hlt, List.drop_eq_getElem_cons hlen, hget] at hsplit
  rw [find_eq_some h]
  exact hsplit.symm

/-- The arguments reach from one parenthesis to the other. -/
theorem length_text (h : Balanced source opened closed) :
    opened + 1 + (find source opened).text.length = closed := by
  obtain ⟨hlt, hat⟩ := h.closed_spec
  have hlen := hat.lt
  rw [find_eq_some h]
  simp only [List.length_take, List.length_drop]
  omega

end ArgumentList
end SourceStamp
