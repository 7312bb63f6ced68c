import SourceStamp.Proofs.Call.StampSights
import SourceStamp.Proofs.Call.Widened

/-!
# Calls around an addition

When a text is put in before a closing parenthesis in code, the calls stay the same, but move.

- `movedOffset`, `MonitoredCall.moved`: where to.
- `callAt_moved`: each call is shown there, and `PassedOver.within`: what the addition itself shows
  stays inside it.
- `covered_moved`: so the same calls are covered, by induction on their place.
- `findAll_moved`: and the same calls are found.
-/

namespace SourceStamp

open Text (isBlank)
open MonitoredCall (findAll)

/-! ## Offsets -/

/-- Where an offset is moved when `n` characters are put in before the one at `k`. -/
def movedOffset (k n p : Nat) : Nat := if p < k then p else p + n

/-- The call with its offsets moved. -/
def MonitoredCall.moved (k n : Nat) (call : MonitoredCall) : MonitoredCall :=
  { call with
    start := movedOffset k n call.start
    stop := if call.stop ≤ k then call.stop else call.stop + n }

@[simp] theorem MonitoredCall.moved_start (k n : Nat) (call : MonitoredCall) :
    (call.moved k n).start = movedOffset k n call.start := rfl

@[simp] theorem MonitoredCall.moved_kind (k n : Nat) (call : MonitoredCall) :
    (call.moved k n).kind = call.kind := rfl

theorem MonitoredCall.moved_openParen {k n : Nat} {call : MonitoredCall} (h : 0 < call.stop) :
    (call.moved k n).openParen = movedOffset k n call.openParen := by
  show (if call.stop ≤ k then call.stop else call.stop + n) - 1 =
    if call.stop - 1 < k then call.stop - 1 else call.stop - 1 + n
  split <;> split <;> omega

/-- A call reaches over the same offsets. -/
theorem MonitoredCall.moved_lt_stop_iff {k n p : Nat} {call : MonitoredCall} :
    movedOffset k n p < (call.moved k n).stop ↔ p < call.stop := by
  show movedOffset k n p < (if call.stop ≤ k then call.stop else call.stop + n) ↔ _
  unfold movedOffset
  split <;> split <;> omega

theorem movedOffset_lt_iff {k n p q : Nat} : movedOffset k n p < movedOffset k n q ↔ p < q := by
  unfold movedOffset
  split <;> split <;> omega

/-- An offset before an addition stays where it is, whatever is added. -/
theorem movedOffset_of_eq_of_lt {k n p q : Nat} (h : movedOffset k n p = q) (hq : q < k) (m : Nat) :
    movedOffset k m p = q := by
  unfold movedOffset at h ⊢
  split at h <;> split <;> omega

/-- An offset after an addition is moved as far as that is long. -/
theorem movedOffset_of_eq_of_le {k n p q : Nat} (h : movedOffset k n p = q) (hq : k + n ≤ q)
    (m : Nat) : movedOffset k m p = k + m + (q - (k + n)) := by
  unfold movedOffset at h ⊢
  split at h <;> split <;> omega

/-- A moved offset is not in the addition. -/
theorem movedOffset_lt_or_le (k n p : Nat) : movedOffset k n p < k ∨ k + n ≤ movedOffset k n p := by
  unfold movedOffset
  split <;> omega

/-- An offset that is not in the addition is a moved one. -/
theorem exists_movedOffset {k n p : Nat} (h : p < k ∨ k + n ≤ p) :
    ∃ q, p = movedOffset k n q := by
  rcases h with h | h
  · exact ⟨p, (if_pos h).symm⟩
  · refine ⟨p - n, ?_⟩
    rw [movedOffset, if_neg (by omega)]
    omega

section Offsets

variable {a b x : Text} {p : Nat}

/-- What is left of the text from an offset on. -/
theorem widened_drop (hp : p ≠ a.length) :
    Widened x b ((a ++ ')' :: b).drop p)
      ((a ++ (x ++ ')' :: b)).drop (movedOffset a.length x.length p)) := by
  rcases Nat.lt_or_gt_of_ne hp with hlt | hgt
  · rw [movedOffset, if_pos hlt, List.drop_append_of_le_length (Nat.le_of_lt hlt),
      List.drop_append_of_le_length (Nat.le_of_lt hlt)]
    exact .before _
  · obtain ⟨i, rfl⟩ := Nat.exists_eq_add_of_lt hgt
    have hdrop : (a ++ ')' :: b).drop (a.length + i + 1) = b.drop i := by
      rw [Nat.add_assoc, ← List.drop_drop, List.drop_left]
      rfl
    have hdrop' : (a ++ (x ++ ')' :: b)).drop (a.length + i + 1 + x.length) = b.drop i := by
      have hsum : a.length + i + 1 + x.length = a.length + (x.length + (i + 1)) := by omega
      rw [hsum, ← List.drop_drop, List.drop_left, ← List.drop_drop, List.drop_left]
      rfl
    rw [movedOffset, if_neg (by omega), hdrop, hdrop']
    refine .after ?_
    rw [List.length_drop]
    exact Nat.sub_le _ _

/-- The text before an offset, without the addition and with it: the same, or the same from a
closing parenthesis on. -/
theorem take_moved (hp : p ≠ a.length) :
    (a ++ (x ++ ')' :: b)).take (movedOffset a.length x.length p) = (a ++ ')' :: b).take p ∨
      ∃ c d w, (a ++ ')' :: b).take p = c ++ ')' :: w ∧
        (a ++ (x ++ ')' :: b)).take (movedOffset a.length x.length p) = d ++ ')' :: w := by
  rcases Nat.lt_or_gt_of_ne hp with hlt | hgt
  · rw [movedOffset, if_pos hlt, List.take_append_of_le_length (Nat.le_of_lt hlt),
      List.take_append_of_le_length (Nat.le_of_lt hlt)]
    exact .inl rfl
  · obtain ⟨i, rfl⟩ := Nat.exists_eq_add_of_lt hgt
    refine .inr ⟨a, a ++ x, b.take i, ?_, ?_⟩
    · rw [Nat.add_assoc, List.take_length_add_append]
      rfl
    · have hsum : a.length + i + 1 + x.length = a.length + (x.length + (i + 1)) := by omega
      rw [movedOffset, if_neg (by omega), hsum, List.take_length_add_append,
        List.take_length_add_append, List.append_assoc]
      rfl

/-- What stands at an offset is found where it is moved. -/
theorem getElem?_moved {α : Type} (u x v : List α) (p : Nat) :
    (u ++ (x ++ v))[movedOffset u.length x.length p]? = (u ++ v)[p]? := by
  unfold movedOffset
  split
  · next hlt => rw [List.getElem?_append_left hlt, List.getElem?_append_left hlt]
  · next hge =>
    rw [List.getElem?_append_right (by omega), List.getElem?_append_right (by omega),
      List.getElem?_append_right (by omega)]
    congr 1
    omega

/-- The characters of the keyword are those of a name. -/
theorem isCalleeChar_of_mem_keyword : ∀ c ∈ declarationKeyword.reverse, isCalleeChar c = true :=
  List.all_eq_true.mp (by decide)

/-- Declarations are searched up to the last closing parenthesis. -/
theorem endsInDeclaration_append (w c d : Text) :
    endsInDeclaration (w ++ ')' :: c) = endsInDeclaration (w ++ ')' :: d) := by
  have hparen : isBlank ')' = false := by decide
  have hword : ∀ c : Text, (w ++ ')' :: c).dropWhile isBlank = w.dropWhile isBlank ++ ')' :: c := by
    intro c
    rw [List.dropWhile_append]
    split
    · next hnil =>
      rw [List.isEmpty_iff.mp hnil, List.dropWhile_cons_of_neg (by simp [hparen])]
      rfl
    · rfl
  have hkeyword : ∀ c : Text,
      declarationKeyword.reverse.isPrefixOf (w.dropWhile isBlank ++ ')' :: c) =
        declarationKeyword.reverse.isPrefixOf (w.dropWhile isBlank) := by
    intro c
    refine isPrefixOf_append_of_callee isCalleeChar_of_mem_keyword ?_ _
    rintro d ⟨⟩
    decide
  unfold endsInDeclaration
  dsimp only
  rw [hword, hword, hkeyword, hkeyword, List.head?_append, List.head?_append]
  cases hprefix : declarationKeyword.reverse.isPrefixOf (w.dropWhile isBlank) with
  | false => simp
  | true =>
    have hlen := (List.isPrefixOf_iff_prefix.mp hprefix).length_le
    rw [List.length_reverse] at hlen
    rw [List.drop_append_of_le_length hlen, List.drop_append_of_le_length hlen,
      List.head?_append, List.head?_append]
    rfl

/-- An addition before a closing parenthesis declares nothing. -/
theorem endsInDeclaration_moved (hp : p ≠ a.length) :
    endsInDeclaration
        ((a ++ (x ++ ')' :: b)).take (movedOffset a.length x.length p)).reverse =
      endsInDeclaration ((a ++ ')' :: b).take p).reverse := by
  rcases @take_moved a b x p hp with heq | ⟨c, d, w, htake, htake'⟩
  · rw [heq]
  · rw [htake, htake', List.reverse_append, List.reverse_append, List.reverse_cons,
      List.append_assoc, List.append_assoc]
    exact endsInDeclaration_append w.reverse _ _

/-- Nor does it make or break a boundary. -/
theorem head?_take_moved (hp : p ≠ a.length) :
    ((a ++ (x ++ ')' :: b)).take (movedOffset a.length x.length p)).reverse.head? =
      ((a ++ ')' :: b).take p).reverse.head? := by
  rcases @take_moved a b x p hp with heq | ⟨c, d, w, htake, htake'⟩
  · rw [heq]
  · simp [htake, htake']

variable {names : MonitoredNames}

/-- No call starts with a closing parenthesis. -/
theorem callAt_of_paren {t : Text} (h : t[p]? = some ')') : callAt names.callees t p = none := by
  refine Option.eq_none_iff_forall_ne_some.mpr ?_
  intro call hcall
  obtain ⟨o, ho, -⟩ := exists_of_callAt hcall
  obtain ⟨c, hc, hcallee⟩ := exists_isCalleeChar ho
  rw [h] at hc
  obtain rfl := Option.some.inj hc
  exact absurd hcallee (by decide)

/-- **Calls around an addition** are shown where it moves them. -/
theorem callAt_moved (hx : PassedOver x) (p : Nat) :
    callAt names.callees (a ++ (x ++ ')' :: b)) (movedOffset a.length x.length p) =
      (callAt names.callees (a ++ ')' :: b) p).map (·.moved a.length x.length) := by
  by_cases hp : p = a.length
  · have hparen : (a ++ ')' :: b)[p]? = some ')' := by
      rw [hp, List.getElem?_append_right (Nat.le_refl _), Nat.sub_self]
      rfl
    rw [callAt_of_paren hparen, callAt_of_paren ((getElem?_moved _ _ _ _).trans hparen)]
    rfl
  · have hrel := (@widened_drop a b x p hp).calleeAt hx
      fun callee hcallee => (names.callees_chars hcallee).2
    rw [callAt_eq_ite, callAt_eq_ite, head?_take_moved hp, getElem?_moved]
    split
    · generalize calleeAt names.callees ((a ++ ')' :: b).drop p) = o at hrel
      generalize calleeAt names.callees ((a ++ (x ++ ')' :: b)).drop
        (movedOffset a.length x.length p)) = o' at hrel
      cases hrel with
      | none => rfl
      | @some found found' h =>
        obtain ⟨hname, hkind, hafter⟩ := h
        have hlen := hafter.length_eq
        simp only [Option.map_some, sizeOfFound, MonitoredCall.moved, hname, hkind, hlen,
          List.length_append, List.length_cons, Option.some_inj, MonitoredCall.mk.injEq, true_and]
        split <;> split <;> omega
    · rfl

/-- Blanks before a parenthesis do not reach past a character that is no blank. -/
theorem length_le_of_blanks {blanks after tail w : Text} {z : Char}
    (hblanks : ∀ c ∈ blanks, isBlank c = true) (hz : isBlank z = false)
    (h : blanks ++ '(' :: after = tail ++ z :: w) : blanks.length ≤ tail.length := by
  refine Nat.le_of_not_lt ?_
  intro hlt
  have hget := congrArg (·[tail.length]?) h
  rw [List.getElem?_append_left hlt, List.getElem?_append_right (Nat.le_refl _),
    Nat.sub_self] at hget
  have := hblanks z (List.mem_of_getElem? hget)
  rw [hz] at this
  cases this

/-- No type arguments start in a text without angle brackets. -/
theorem head?_ne_angle {opening after tail w : Text} {z : Char} (hno : '<' ∉ tail ++ [z])
    (h : opening ++ '(' :: after = tail ++ z :: w) : opening.head? ≠ some '<' := by
  intro hangle
  have hhead := congrArg List.head? h
  rw [List.head?_append, hangle, Option.some_or] at hhead
  refine hno (List.mem_of_head? ?_)
  rw [hhead]
  cases tail <;> rfl

/-- **Calls inside an addition** stay inside it: the name ends before the last character, no type
arguments follow it, and a parenthesis stands after the blanks. -/
theorem PassedOver.within (hx : PassedOver x) {i : Nat} (hi : i < x.length) {call : MonitoredCall}
    (hcall : callAt names.callees (a ++ (x ++ ')' :: b)) (a.length + i) = some call) :
    call.stop ≤ a.length + x.length ∧ ∃ opening after,
      (a ++ (x ++ ')' :: b)).drop (a.length + i) = call.name ++ (opening ++ '(' :: after) ∧
      (call.name ≠ [] ∧ ∀ c ∈ call.name, isCalleeChar c = true) ∧
      (∀ c ∈ opening, isBlank c = true) ∧
      call.stop = a.length + i + call.name.length + opening.length + 1 := by
  obtain ⟨o, ho, rfl⟩ := exists_of_callAt hcall
  obtain ⟨-, hmem, -, opening, after, hdrop, hstop, hshape⟩ := occurrenceAt_eq_some ho
  obtain ⟨hne, hchars⟩ := names.callees_chars hmem
  obtain ⟨front, z, rfl, hcallee, hblank⟩ := hx.last
  rw [List.length_append, List.length_singleton] at hi ⊢
  have hrest : (a ++ ((front ++ [z]) ++ ')' :: b)).drop (a.length + i) =
      front.drop i ++ z :: ')' :: b := by
    rw [← List.drop_drop, List.drop_left, List.append_assoc,
      List.drop_append_of_le_length (Nat.le_of_lt_succ hi)]
    rfl
  -- the name ends before the last character
  have hname : o.name <+: front.drop i := by
    rw [← List.isPrefixOf_iff_prefix, ← isPrefixOf_append_of_callee hchars
      (w := z :: ')' :: b) (by rintro c ⟨⟩; exact hcallee), ← hrest, hdrop,
      List.isPrefixOf_iff_prefix]
    exact List.prefix_append _ _
  obtain ⟨tail, htail⟩ := hname
  have hopening : opening ++ '(' :: after = tail ++ z :: ')' :: b := by
    rw [hrest, ← htail, List.append_assoc] at hdrop
    exact (List.append_cancel_left hdrop).symm
  have hblanks : ∀ c ∈ opening, isBlank c = true := by
    rcases hshape with hblanks | hangle
    · exact hblanks
    · have hsub : tail ++ [z] ⊆ front ++ [z] := by
        refine List.append_subset.mpr ⟨?_, List.subset_append_right _ _⟩
        intro c hc
        refine List.mem_append_left _ (List.mem_of_mem_drop (i := i) ?_)
        rw [← htail]
        exact List.mem_append_right _ hc
      have hno : '<' ∉ tail ++ [z] := fun h => absurd rfl (hx.no_angle _ (hsub h)).1
      exact absurd hangle (head?_ne_angle hno hopening)
  have hle := length_le_of_blanks hblanks hblank hopening
  refine ⟨?_, opening, after, hdrop, ⟨hne, hchars⟩, hblanks, hstop⟩
  have hlen := congrArg List.length htail
  rw [List.length_append, List.length_drop] at hlen
  omega

/-- The same offsets are covered: what covers one starts before it, and is found where it was. -/
theorem covered_moved (hx : PassedOver x) (hp : p ≠ a.length) :
    Covered (occurrences names (a ++ (x ++ ')' :: b))) (movedOffset a.length x.length p) ↔
      Covered (occurrences names (a ++ ')' :: b)) p := by
  induction p using Nat.strongRecOn with
  | _ p ih =>
    rw [covered_iff, covered_iff]
    constructor
    · rintro ⟨q', hlt, hcovered, call', hcall', hstop⟩
      have hout : q' < a.length ∨ a.length + x.length ≤ q' := by
        refine (Nat.lt_or_ge q' a.length).imp_right fun hge => Nat.le_of_not_lt fun hin => ?_
        -- a call inside the addition does not reach out of it
        obtain ⟨i, rfl⟩ := Nat.exists_eq_add_of_le hge
        have hstay := (hx.within (by omega) hcall').1
        have := movedOffset_lt_or_le a.length x.length p
        omega
      obtain ⟨q, rfl⟩ := exists_movedOffset hout
      have hlt := movedOffset_lt_iff.mp hlt
      rw [callAt_moved hx] at hcall'
      obtain ⟨call, hcall, rfl⟩ := Option.map_eq_some_iff.mp hcall'
      have hq : q ≠ a.length := by
        rintro rfl
        rw [callAt_of_paren (by simp)] at hcall
        cases hcall
      refine ⟨q, hlt, fun h => hcovered ((ih q hlt hq).mpr h), call, hcall, ?_⟩
      exact MonitoredCall.moved_lt_stop_iff.mp hstop
    · rintro ⟨q, hlt, hcovered, call, hcall, hstop⟩
      have hq : q ≠ a.length := by
        rintro rfl
        rw [callAt_of_paren (by simp)] at hcall
        cases hcall
      refine ⟨movedOffset a.length x.length q, movedOffset_lt_iff.mpr hlt,
        fun h => hcovered ((ih q hlt hq).mp h), call.moved a.length x.length, ?_,
        MonitoredCall.moved_lt_stop_iff.mpr hstop⟩
      rw [callAt_moved hx, hcall]
      rfl

end Offsets

/-! ## What is seen around an addition -/

section Seen

variable {a b x : Text}

/-- The sights of a text with an addition, and without. -/
theorem sights_insert (hat : CodeAt (a ++ ')' :: b) a.length ')') (hx : Stamp.Tidy x) :
    sights (a ++ ')' :: b) = sights a ++ sights (')' :: b) ∧
      sights (a ++ (x ++ ')' :: b)) = sights a ++ (sights x ++ sights (')' :: b)) := by
  have hcode : (Reading.start.read (some ')') a).InCode := by
    have := hat.inCode
    rwa [readingAt, hat.get_eq, List.take_left] at this
  have hhead : (x ++ ')' :: b).head? ≠ some '/' ∧ (x ++ ')' :: b).head? ≠ some '*' := by
    cases x with
    | nil => simp
    | cons c x => exact hx.head_ne
  have hcode' : (Reading.start.read (x ++ ')' :: b).head? a).InCode := by
    rw [Reading.read_change_following hhead.1 hhead.2 hcode]
    exact hcode
  rw [sights_append hcode', sights_append_of_closed hx.closed]
  exact ⟨sights_append hcode, rfl⟩

/-- What is seen at an offset is seen where it is moved. -/
theorem getElem?_sights_moved (hat : CodeAt (a ++ ')' :: b) a.length ')') (hx : Stamp.Tidy x)
    (p : Nat) :
    (sights (a ++ (x ++ ')' :: b)))[movedOffset a.length x.length p]? =
      (sights (a ++ ')' :: b))[p]? := by
  obtain ⟨hsights, hsights'⟩ := sights_insert hat hx
  rw [hsights, hsights', ← length_sights a, ← length_sights x]
  exact getElem?_moved _ _ _ _

/-- A character that completes no delimiter, and is no blank and no slash, is seen where it stands
in code. -/
theorem classify_eq_code_iff {t : Text} {p : Nat} {c : Char} (hget : t[p]? = some c)
    (hblank : isBlank c = false) (hc : c ≠ '/' ∧ c ≠ '*' ∧ c ≠ '{') :
    classify t p = .code ↔ (sights t)[p]? = some (.code c) := by
  rw [sights_eq_code_iff]
  constructor
  · intro h
    have hat : CodeAt t p c := by
      refine ⟨hget, inCode_of_classify h ?_⟩
      simp [hget, Reading.IsSecond, hc]
    exact ⟨hat, hat.isSignificantAt hblank hc.1⟩
  · rintro ⟨hat, -⟩
    exact (classify_eq t p).trans hat.inCode.state_eq

theorem classify_moved (hat : CodeAt (a ++ ')' :: b) a.length ')') (hx : Stamp.Tidy x) {p : Nat}
    {c : Char} (hget : (a ++ ')' :: b)[p]? = some c) (hblank : isBlank c = false)
    (hc : c ≠ '/' ∧ c ≠ '*' ∧ c ≠ '{') :
    classify (a ++ (x ++ ')' :: b)) (movedOffset a.length x.length p) = .code ↔
      classify (a ++ ')' :: b) p = .code := by
  rw [classify_eq_code_iff hget hblank hc,
    classify_eq_code_iff ((getElem?_moved a x _ p).trans hget) hblank hc,
    getElem?_sights_moved hat hx]

theorem isPlain_of_isBlank {c : Char} (h : isBlank c = true) : isPlain c = true := by
  refine Reading.isPlain_iff.mpr ⟨?_, ?_, ?_, ?_⟩ <;> rintro rfl <;> exact absurd h (by decide)

/-- No call inside the addition starts in code: its opening parenthesis would be seen. -/
theorem classify_within (hat : CodeAt (a ++ ')' :: b) a.length ')') (hx : PassedOver x)
    (htidy : Stamp.Tidy x) {names : MonitoredNames} {i : Nat} (hi : i < x.length)
    {call : MonitoredCall}
    (hcall : callAt names.callees (a ++ (x ++ ')' :: b)) (a.length + i) = some call) :
    classify (a ++ (x ++ ')' :: b)) ((a.length + i : Nat) : Int) ≠ .code := by
  intro hcode
  obtain ⟨hle, opening, after, hdrop, ⟨hne, hchars⟩, hblanks, hstop⟩ := hx.within hi hcall
  have hstart : (readingAt (a ++ (x ++ ')' :: b)) (a.length + i)).InCode := by
    obtain ⟨c, rest, hname⟩ := List.exists_cons_of_ne_nil hne
    have hc : isCalleeChar c = true := hchars c (hname ▸ List.mem_cons_self)
    refine inCode_of_classify hcode ?_
    rw [← List.head?_drop, hdrop, hname]
    rintro (h | h | h) <;> injection h with h <;> exact absurd h (ne_of_isCalleeChar hc (by decide))
  have hplain : Reading.Closed (call.name ++ opening) := by
    refine Reading.closed_of_plain (List.all_eq_true.mpr fun c hc => ?_)
    rcases List.mem_append.mp hc with hc | hc
    · exact isPlain_of_isCalleeChar (hchars c hc)
    · exact isPlain_of_isBlank (hblanks c hc)
  rw [← List.append_assoc call.name] at hdrop
  have hparen := inCode_add_of_closed hstart hdrop hplain
  have hget : (a ++ (x ++ ')' :: b))[a.length + i + (call.name ++ opening).length]? = some '(' := by
    rw [← List.head?_drop, ← List.drop_drop, hdrop, List.drop_left]
    rfl
  have hseen := CodeAt.sights_eq ⟨hget, hparen⟩ (.inl (by decide))
  rw [(sights_insert hat htidy).2, Nat.add_assoc, ← length_sights a,
    List.getElem?_append_right (Nat.le_add_right _ _), Nat.add_sub_cancel_left,
    List.getElem?_append_left] at hseen
  · exact absurd (htidy.fixed _ (List.mem_of_getElem? hseen)) (by decide)
  · rw [length_sights, List.length_append]
    omega

variable {names : MonitoredNames}

/-- The calls found around an addition are those found without it, where it moves them. -/
theorem mem_findAll_moved_iff (hat : CodeAt (a ++ ')' :: b) a.length ')') (hx : PassedOver x)
    (htidy : Stamp.Tidy x) {call : MonitoredCall} :
    call ∈ findAll (a ++ (x ++ ')' :: b)) names ↔
      call ∈ (findAll (a ++ ')' :: b) names).map (·.moved a.length x.length) := by
  rw [List.mem_map]
  -- whether a call is found is decided by what is the same at its offset and where that is moved
  have hmoved : ∀ {call : MonitoredCall},
      callAt names.callees (a ++ ')' :: b) call.start = some call →
      (call ∈ findAll (a ++ ')' :: b) names ↔
        call.moved a.length x.length ∈ findAll (a ++ (x ++ ')' :: b)) names) := by
    intro call hcall
    have hp : call.start ≠ a.length := by
      intro heq
      rw [heq, callAt_of_paren (by simp)] at hcall
      cases hcall
    obtain ⟨o, ho, heq⟩ := exists_of_callAt hcall
    obtain ⟨c, hget, hc⟩ := exists_isCalleeChar ho
    have hclassify := @classify_moved a b x hat htidy _ c hget
      (Bool.eq_false_iff.mpr fun hb => by rw [isCalleeChar_of_isBlank hb] at hc; cases hc)
      ⟨ne_of_isCalleeChar hc (by decide), ne_of_isCalleeChar hc (by decide),
        ne_of_isCalleeChar hc (by decide)⟩
    have hshown := @callAt_moved a b x names hx call.start
    rw [hcall] at hshown
    rw [mem_findAll_iff, mem_findAll_iff, MonitoredCall.moved_start, covered_moved hx hp, hclassify,
      endsInDeclaration_moved hp, hshown, hcall, Option.map_some]
    simp only [true_and]
  constructor
  · intro h
    obtain ⟨hcall, -, hcode, -⟩ := mem_findAll_iff.mp h
    -- it starts in code, which no call inside the addition does
    have hout : call.start < a.length ∨ a.length + x.length ≤ call.start := by
      refine (Nat.lt_or_ge call.start a.length).imp_right fun hge => Nat.le_of_not_lt fun hin => ?_
      obtain ⟨i, hi⟩ := Nat.exists_eq_add_of_le hge
      rw [hi] at hcall hcode
      exact classify_within hat hx htidy (by omega) hcall hcode
    obtain ⟨q, hq⟩ := exists_movedOffset hout
    rw [hq, callAt_moved hx] at hcall
    obtain ⟨call', hcall', rfl⟩ := Option.map_eq_some_iff.mp hcall
    obtain ⟨o, ho, rfl⟩ := exists_of_callAt hcall'
    rw [← (occurrenceAt_eq_some ho).1] at hcall'
    exact ⟨_, (hmoved hcall').mpr h, rfl⟩
  · rintro ⟨call', hcall', rfl⟩
    exact (hmoved (mem_findAll_iff.mp hcall').1).mp hcall'

/-- **Calls are found again** around an addition, in their order. -/
theorem findAll_moved (hat : CodeAt (a ++ ')' :: b) a.length ')') (hx : PassedOver x)
    (htidy : Stamp.Tidy x) :
    findAll (a ++ (x ++ ')' :: b)) names =
      (findAll (a ++ ')' :: b) names).map (·.moved a.length x.length) := by
  refine calls_eq_of_mem_iff (MonitoredCall.findAll_pairwise _ _) ?_
    fun call => mem_findAll_moved_iff hat hx htidy
  refine List.pairwise_map.mpr ((MonitoredCall.findAll_pairwise _ _).imp_of_mem ?_)
  intro call call' hcall hcall' hlt
  have hstop := (MonitoredCall.text_at hcall).stop_eq
  have hstop' := (MonitoredCall.text_at hcall').stop_eq
  rw [MonitoredCall.moved_openParen (by omega), MonitoredCall.moved_openParen (by omega)]
  exact movedOffset_lt_iff.mpr hlt

end Seen

end SourceStamp
