import SourceStamp.Proofs.Call.Host
import SourceStamp.Proofs.Call.Nesting
import SourceStamp.Proofs.Call.StampText

/-!
# What stamps show

A stamp shows braces in pairs and no parentheses, whatever path it names, since the path stands in a
string literal. So it changes neither where calls end nor how deep anything is nested, and the
arguments added with it can be counted.

- `Stamp.Tidy`: texts that show brackets in pairs only, and no parentheses.
- `Stamp.tidy_addition`: the arguments that are added to a call are such a text.
- `Stamp.count_addition`: how many they are, and `Stamp.padding?_addition`: they are enough.
- `Stamp.editFor_eq_shownEdit`: the edit of a wrapper or method, by what the source text shows.
-/

namespace SourceStamp

open Outline (isOpener isCloser)
open Reading (Closed)
open Text (doubleQuote backslash stringLiteral literalChar)

/-! ## String literals -/

/-- Every double quote in the text stands right after a backslash; `previous` is the character
before the text. -/
def Guarded (previous : Option Char) : Text → Prop
  | [] => True
  | c :: t => (c = doubleQuote → previous = some backslash) ∧ Guarded (some c) t

theorem guarded_of_not_mem {t : Text} (h : doubleQuote ∉ t) (previous : Option Char) :
    Guarded previous t := by
  induction t generalizing previous with
  | nil => trivial
  | cons c t ih =>
    rw [List.mem_cons, not_or] at h
    exact ⟨fun hc => absurd hc.symm h.1, ih h.2 _⟩

theorem Guarded.append {x y : Text} {previous : Option Char} (hx : Guarded previous x)
    (hy : ∀ p, Guarded p y) : Guarded previous (x ++ y) := by
  induction x generalizing previous with
  | nil => exact hy previous
  | cons c x ih => exact ⟨hx.1, ih hx.2⟩

theorem guarded_unitEscape (n : Nat) (previous : Option Char) :
    Guarded previous (Text.unitEscape n) := by
  refine guarded_of_not_mem ?_ previous
  intro h
  rcases List.mem_cons.mp h with h | h
  · exact absurd h (by decide)
  · rcases List.mem_cons.mp h with h | h
    · exact absurd h (by decide)
    · exact (Reading.hexDigits_ne 4 n _ h).1 rfl

/-- What a literal writes for a character is guarded. -/
theorem guarded_literalChar (c : Char) (previous : Option Char) :
    Guarded previous (literalChar c) := by
  unfold literalChar
  split
  · exact ⟨fun h => absurd h (by decide), fun _ => rfl, trivial⟩
  · next hq =>
    -- escapes of one letter, then the character itself, then its code point
    repeat' split
    iterate 6 exact guarded_of_not_mem (by decide) previous
    · exact ⟨fun h => absurd h hq, trivial⟩
    · unfold Text.codePointEscape
      split
      · exact guarded_unitEscape _ _
      · exact (guarded_unitEscape _ _).append (guarded_unitEscape _)

theorem guarded_flatMap (t : Text) (previous : Option Char) :
    Guarded previous (t.flatMap literalChar) := by
  induction t generalizing previous with
  | nil => trivial
  | cons c t ih =>
    rw [List.flatMap_cons]
    exact (guarded_literalChar c previous).append ih

/-- What stands before a quote of a guarded text ends in a backslash. -/
theorem Guarded.getLast?_eq {c : Char} {u w : Text}
    (h : Guarded (some c) (u ++ doubleQuote :: w)) : (c :: u).getLast? = some backslash := by
  induction u generalizing c with
  | nil => exact h.1 rfl
  | cons d u ih =>
    rw [List.getLast?_cons_cons]
    exact ih h.2

/-- Inside a literal, up to its closing quote, nothing is seen in code. -/
theorem code_not_mem_sights_of_guarded {r : Reading} (hs : r.state = .string doubleQuote)
    (hh : r.halfway = false) {t : Text} (ht : Guarded r.previous t) (c : Char) :
    .code c ∉ r.sights none (t ++ [doubleQuote]) := by
  have hhead : ∀ {r : Reading} {d : Char} {f : Option Char}, r.state = .string doubleQuote →
      r.sight d f ≠ .code c := by
    intro r d f hs heq
    have := (Reading.sight_eq_code_iff.mp heq).1.state_eq
    rw [hs] at this
    cases this
  induction t generalizing r with
  | nil => exact fun h => hhead hs (List.mem_singleton.mp h).symm
  | cons d t ih =>
    rw [List.cons_append, Reading.sights_cons, List.mem_cons, not_or]
    refine ⟨fun h => hhead hs h.symm, ?_⟩
    have hd : d ≠ doubleQuote ∨ r.previous = some backslash :=
      (Decidable.em (d = doubleQuote)).elim (fun h => .inr (ht.1 h)) .inl
    rw [Reading.next_in_string hs hh hd]
    exact ih rfl rfl ht.2

/-- A string literal shows its opening quote, and nothing else of code. -/
theorem sights_stringLiteral (t : Text) :
    ∃ rest, sights (stringLiteral t) = .code doubleQuote :: rest ∧ ∀ c, .code c ∉ rest := by
  refine ⟨_, ?_, code_not_mem_sights_of_guarded (r := Reading.start.next doubleQuote none) rfl rfl
    (guarded_flatMap t _)⟩
  rw [sights, stringLiteral, Reading.sights_cons]
  rfl

namespace Stamp

/-! ## Tidy texts -/

/-- A text that shows brackets in pairs and no parentheses. -/
structure Tidy (t : Text) : Prop where
  closed : Closed t
  head_ne : t.head? ≠ some '/' ∧ t.head? ≠ some '*'
  level_eq : level 0 (sights t) = some 0
  fixed : ∀ c, .code c ∈ sights t → isFixed c = true

/-- A text without brackets. -/
theorem level_of_no_bracket {l : List Sight}
    (h : ∀ c, .code c ∈ l → isOpener c = false ∧ isCloser c = false) (depth : Nat) :
    level depth l = some depth := by
  induction l with
  | nil => rfl
  | cons s l ih =>
    have hs : levelAfter depth s = some depth := by
      cases s with
      | hidden | text => rfl
      | code c =>
        obtain ⟨h1, h2⟩ := h c List.mem_cons_self
        simp [levelAfter, h1, h2]
    rw [level_cons, hs]
    exact ih fun c hc => h c (List.mem_cons_of_mem s hc)

/-- A fixed character that is no bracket, and opens and completes nothing. -/
def isTidyChar (c : Char) : Bool :=
  isPlain c && isFixed c && !isOpener c && !isCloser c && c != '*'

theorem tidy_of_all {t : Text} (h : t.all isTidyChar = true) : Tidy t := by
  simp only [List.all_eq_true, isTidyChar, Bool.and_eq_true, Bool.not_eq_true', bne_iff_ne] at h
  have hmem : ∀ {c}, .code c ∈ sights t → c ∈ t := fun hc => Reading.mem_of_code_mem_sights hc
  refine ⟨Reading.closed_of_plain (List.all_eq_true.mpr fun c hc => (h c hc).1.1.1.1), ?_,
    level_of_no_bracket (fun c hc => ⟨(h c (hmem hc)).1.1.2, (h c (hmem hc)).1.2⟩) 0,
    fun c hc => (h c (hmem hc)).1.1.1.2⟩
  constructor
  · intro hhead
    exact (Reading.isPlain_iff.mp (h _ (List.mem_of_head? hhead)).1.1.1.1).2.2.2 rfl
  · intro hhead
    exact (h _ (List.mem_of_head? hhead)).2 rfl

variable {file : Text} {line : Int}

theorem tidy_stringLiteral (hfile : file.getLast? ≠ some backslash) : Tidy (stringLiteral file) := by
  obtain ⟨rest, hsights, hrest⟩ := sights_stringLiteral file
  have hcode : ∀ c, .code c ∈ sights (stringLiteral file) → c = doubleQuote := by
    intro c hc
    rw [hsights] at hc
    rcases List.mem_cons.mp hc with hc | hc
    · exact Sight.code.inj hc
    · exact absurd hc (hrest c)
  refine ⟨Reading.closed_stringLiteral hfile, ⟨nofun, nofun⟩, level_of_no_bracket ?_ 0, ?_⟩
  · intro c hc
    rw [hcode c hc]
    decide
  · intro c hc
    rw [hcode c hc]
    decide

/-- No parenthesis shows in a tidy text. -/
theorem Tidy.not_isParen {x : Text} (hx : Tidy x) : ∀ s ∈ sights x, s.isParen = false := by
  intro s hs
  cases s with
  | hidden | text => rfl
  | code c =>
    have hfixed := hx.fixed c hs
    rw [Sight.isParen, Bool.or_eq_false_iff, beq_eq_false_iff_ne, beq_eq_false_iff_ne]
    constructor <;> rintro ⟨⟩ <;> exact absurd hfixed (by decide)

theorem Tidy.sights_append {x : Text} (hx : Tidy x) (y : Text) :
    sights (x ++ y) = sights x ++ sights y :=
  sights_append_of_closed hx.closed y

/-- Tidy texts can be put together. -/
theorem Tidy.append {x y : Text} (hx : Tidy x) (hy : Tidy y) : Tidy (x ++ y) := by
  have hsights := hx.sights_append y
  refine ⟨hx.closed.append hy.closed, ?_, ?_, ?_⟩
  · rw [List.head?_append]
    cases x with
    | nil => exact hy.head_ne
    | cons c x => exact hx.head_ne
  · rw [hsights, level_append, hx.level_eq]
    exact hy.level_eq
  · intro c hc
    rw [hsights] at hc
    exact (List.mem_append.mp hc).elim (hx.fixed c) (hy.fixed c)

/-- What a text in braces shows. -/
theorem Tidy.sights_braces {x : Text} (hx : Tidy x) :
    sights ("\x7b ".toList ++ x ++ " \x7d".toList) =
      .code '\x7b' :: .hidden :: (sights x ++ [.hidden, .code '\x7d']) := by
  have hopen : Closed "\x7b ".toList := Reading.closed_of_plain (by decide)
  rw [sights_append_of_closed (hopen.append hx.closed), sights_append_of_closed hopen]
  rfl

/-- A tidy text can be put in braces. -/
theorem Tidy.braces {x : Text} (hx : Tidy x) : Tidy ("\x7b ".toList ++ x ++ " \x7d".toList) := by
  have hopen : Closed "\x7b ".toList := Reading.closed_of_plain (by decide)
  have hclose : Closed " \x7d".toList := Reading.closed_of_plain (by decide)
  refine ⟨(hopen.append hx.closed).append hclose, ⟨nofun, nofun⟩, ?_, ?_⟩
  · rw [hx.sights_braces]
    have hlevel : level 1 (sights x) = some 1 := level_add hx.level_eq 1
    show level 1 (sights x ++ _) = some 0
    rw [level_append, hlevel]
    rfl
  · intro c hc
    rw [hx.sights_braces] at hc
    simp only [List.mem_cons, List.mem_append, Sight.code.injEq, reduceCtorEq, false_or,
      List.not_mem_nil, or_false] at hc
    rcases hc with rfl | hc | rfl
    · decide
    · exact hx.fixed c hc
    · decide

/-! ## The arguments that are added -/

theorem tidy_ofInt (n : Int) : Tidy (Text.ofInt n) :=
  tidy_of_all (all_ofInt (by decide) (by decide) n)

/-- The property is a name before an object. -/
theorem property_eq (file : Text) (line : Int) :
    property file line = "__source: ".toList ++ ("\x7b ".toList ++ ("fileName: ".toList ++
      stringLiteral file ++ ", lineNumber: ".toList ++ Text.ofInt line) ++ " \x7d".toList) := by
  have hsplit : "__source: \x7b fileName: ".toList =
      "__source: ".toList ++ ("\x7b ".toList ++ "fileName: ".toList) := rfl
  unfold property
  rw [hsplit]
  simp only [List.append_assoc]

theorem tidy_property (hfile : file.getLast? ≠ some backslash) : Tidy (property file line) := by
  have hkey : Tidy "__source: ".toList := tidy_of_all (by decide)
  have hname : Tidy "fileName: ".toList := tidy_of_all (by decide)
  have hline : Tidy ", lineNumber: ".toList := tidy_of_all (by decide)
  rw [property_eq]
  exact hkey.append (((hname.append (tidy_stringLiteral hfile)).append hline).append
    (tidy_ofInt line)).braces

theorem tidy_object (hfile : file.getLast? ≠ some backslash) : Tidy (object file line) :=
  (tidy_property hfile).braces

theorem tidy_separator (afterComma : Bool) : Tidy (separator afterComma) := by
  cases afterComma <;> exact tidy_of_all (by decide)

/-- What is added to a call is tidy. -/
theorem tidy_furtherArguments (hfile : file.getLast? ≠ some backslash) (n : Nat) :
    Tidy (furtherArguments n file line) := by
  induction n with
  | zero => exact tidy_object hfile
  | succ n ih =>
    rw [furtherArguments_succ]
    exact (tidy_of_all (by decide)).append ((tidy_of_all (by decide)).append ih)

/-! ## Counting them -/

/-- Outside all brackets, a stamp is one more argument after a comma. -/
theorem foldl_add_object (hfile : file.getLast? ≠ some backslash) {t : Tally} (ht : t.depth = 0) :
    (sights (object file line)).foldl Tally.add t = ⟨0, t.commas, true, false⟩ := by
  have hproperty : Tidy (property file line) := tidy_property hfile
  have hlevel : level 1 (sights (property file line)) = some 1 := level_add hproperty.level_eq 1
  have hdepth := @Tally.foldl_add_depth ⟨1, t.commas, true, false⟩ _ _ hlevel
  have hcommas := @Tally.foldl_add_commas ⟨1, t.commas, true, false⟩ _ _ _ hproperty.level_eq
    Nat.zero_lt_one
  rw [object, hproperty.sights_braces, List.foldl_cons, Tally.add_opener (by decide), ht,
    List.foldl_cons, List.foldl_append]
  show Tally.add ((sights (property file line)).foldl Tally.add ⟨1, t.commas, true, false⟩)
    (.code '\x7d') = _
  rw [Tally.add_closer (by decide) (by decide), hdepth, hcommas]

/-- Outside all brackets, every one of the further arguments counts. -/
theorem foldl_add_furtherArguments (hfile : file.getLast? ≠ some backslash) (n : Nat) {t : Tally}
    (ht : t.depth = 0) :
    (sights (furtherArguments n file line)).foldl Tally.add t =
      ⟨0, t.commas + n, true, false⟩ := by
  induction n generalizing t with
  | zero => exact foldl_add_object hfile ht
  | succ n ih =>
    have hcomma : Tidy ", ".toList := tidy_of_all (by decide)
    have hplaceholder : Tidy placeholder := tidy_of_all (by decide)
    have hundefined : (sights placeholder).foldl Tally.add t = ⟨0, t.commas, true, false⟩ := by
      obtain ⟨depth, commas, seen, trailing⟩ := t
      obtain rfl : depth = 0 := ht
      rfl
    rw [furtherArguments_succ, hplaceholder.sights_append, hcomma.sights_append, List.foldl_append,
      List.foldl_append, hundefined]
    have hnext : (sights ", ".toList).foldl Tally.add ⟨0, t.commas, true, false⟩ =
        ⟨0, t.commas + 1, true, true⟩ := rfl
    rw [hnext, ih rfl, Nat.add_assoc, Nat.add_comm 1 n]

/-- What an edit adds at the end of an argument list. -/
def addition (afterComma : Bool) (n : Nat) (file : Text) (line : Int) : Text :=
  separator afterComma ++ furtherArguments n file line

theorem tidy_addition (hfile : file.getLast? ≠ some backslash) (afterComma : Bool) (n : Nat) :
    Tidy (addition afterComma n file line) :=
  (tidy_separator afterComma).append (tidy_furtherArguments hfile n)

/-- An addition to a list that is not empty makes as many arguments more as it holds. -/
theorem count_addition (hfile : file.getLast? ≠ some backslash) (n : Nat) {t : Tally} (hdepth : t.depth = 0)
    (hseen : t.seen = true) :
    ((sights (addition t.trailing n file line)).foldl Tally.add t).seen = true ∧
      ((sights (addition t.trailing n file line)).foldl Tally.add t).count = t.count + n + 1 := by
  obtain ⟨depth, commas, seen, trailing⟩ := t
  obtain rfl : depth = 0 := hdepth
  obtain rfl : seen = true := hseen
  rw [addition, (tidy_separator trailing).sights_append,
    List.foldl_append]
  cases trailing with
  | true =>
    -- the list ends with a comma, so only a blank separates
    have hseparator : (sights (separator true)).foldl Tally.add ⟨0, commas, true, true⟩ =
        ⟨0, commas, true, true⟩ := rfl
    rw [hseparator, foldl_add_furtherArguments hfile n rfl]
    exact ⟨rfl, rfl⟩
  | false =>
    have hseparator : (sights (separator false)).foldl Tally.add ⟨0, commas, true, false⟩ =
        ⟨0, commas + 1, true, true⟩ := rfl
    rw [hseparator, foldl_add_furtherArguments hfile n rfl]
    exact ⟨rfl, rfl⟩

/-! ## Edits -/

/-- How many undefined arguments the edit of a wrapper or method puts before the stamp, if the call
takes a stamp. -/
def padding? (kind : CalleeKind) (t : Tally) : Option Nat :=
  match kind with
  | .hook => none
  | .wrapper => if t.count = 1 then some 0 else none
  | .method =>
    if t.seen = false ∨ methodArity ≤ t.count then none else some (methodArity - 1 - t.count)

/-- **Once is enough**: a call that has got its stamp takes no other one. -/
theorem padding?_addition (hfile : file.getLast? ≠ some backslash) {kind : CalleeKind} {t : Tally} {n : Nat}
    (hdepth : t.depth = 0) (h : padding? kind t = some n) :
    padding? kind ((sights (addition t.trailing n file line)).foldl Tally.add t) = none := by
  cases kind with
  | hook => rfl
  | wrapper =>
    simp only [padding?] at h ⊢
    split at h
    · next hcount =>
      have hseen : t.seen = true := by
        rw [Tally.count] at hcount
        split at hcount
        · assumption
        · cases hcount
      rw [(count_addition hfile n hdepth hseen).2, if_neg (by omega)]
    · cases h
  | method =>
    simp only [padding?] at h ⊢
    split at h
    · cases h
    · next hneed =>
      rw [not_or, Bool.not_eq_false] at hneed
      obtain rfl := Option.some.inj h
      rw [(count_addition hfile _ hdepth hneed.1).2, if_pos (.inr (by omega))]

/-- What a source text shows after an opening parenthesis. -/
def shownAfter (source : Text) (opened : Nat) : List Sight := (sights source).drop (opened + 1)

/-- The edit of a wrapper or method, told by what the source text shows after the opening
parenthesis. -/
def shownEdit? (kind : CalleeKind) (opened : Nat) (l : List Sight) (file : Text) (line : Int) :
    Option Edit :=
  (closingIn 0 l).bind fun n =>
    (padding? kind (tally (l.take n))).map fun m =>
      .insert ((opened + 1 + n : Nat) : Int)
        (addition (tally (l.take n)).trailing m file line)

/-- The end of a call, told likewise. -/
theorem balanced_of_closingIn {source : Text} {opened n : Nat} (hopen : CodeAt source opened '(')
    (hn : closingIn 0 (shownAfter source opened) = some n) :
    Balanced source opened (opened + 1 + n) := by
  refine ⟨hopen, ?_⟩
  rw [closingParen_eq_closingIn hopen]
  exact congrArg (Option.map _) hn

theorem exists_closingIn {source : Text} {opened closed : Nat} (hb : Balanced source opened closed) :
    ∃ n, opened + 1 + n = closed ∧ closingIn 0 (shownAfter source opened) = some n := by
  have hclose := hb.closed_eq
  rw [closingParen_eq_closingIn hb.opened_at] at hclose
  obtain ⟨n, hn, hclosed⟩ := Option.map_eq_some_iff.mp hclose
  exact ⟨n, hclosed, hn⟩

/-- The arguments show on their own what the source text shows there. -/
theorem sights_arguments {source : Text} {opened n : Nat}
    (hb : Balanced source opened (opened + 1 + n)) :
    sights (ArgumentList.find source opened).text = (shownAfter source opened).take n := by
  have hlen := ArgumentList.length_text hb
  have hsights := hb.standsAt.sights_eq
  rwa [Nat.add_left_cancel hlen, eq_comm] at hsights

/-- **Edits by what is shown**: wrappers and methods are stamped by the sights of their arguments. -/
theorem editFor_eq_shownEdit {source : Text} {opened : Nat} (hopen : CodeAt source opened '(')
    {kind : CalleeKind} (hkind : kind ≠ .hook) :
    editFor kind (ArgumentList.find source opened) file line =
      shownEdit? kind opened (shownAfter source opened) file line := by
  unfold shownEdit?
  cases hn : closingIn 0 (shownAfter source opened) with
  | none =>
    rw [ArgumentList.find_eq, closingParen_eq_closingIn hopen, ← shownAfter, hn]
    rfl
  | some n =>
    have hb := balanced_of_closingIn hopen hn
    rw [editFor_eq hb, Option.bind_some, ← sights_arguments hb]
    generalize ArgumentList.find source opened = list
    have hempty : list.layout.isEmpty = !(tally (sights list.text)).seen :=
      ArgumentLayout.isEmpty_eq _ _
    have hcount : list.layout.count = (tally (sights list.text)).count :=
      ArgumentLayout.count_eq _ _
    have htrailing : list.layout.trailing = (tally (sights list.text)).trailing :=
      ArgumentLayout.trailing_eq _ _
    cases kind with
    | hook => exact absurd rfl hkind
    | wrapper =>
      simp only [wrapperEdit?, padding?, append, hcount, htrailing]
      split <;> rfl
    | method =>
      simp only [methodEdit?, padding?, append, hempty, hcount, htrailing, Bool.not_eq_true']
      split <;> rfl

end Stamp
end SourceStamp
