import SourceStamp.Proofs.Call.StampSights

/-!
# Texts put into argument lists

A stamp takes a place among the arguments of a call where nothing is shown. All the rest is seen as
before, and the call ends with the same parenthesis.

- `Slot`: a stretch of a text that shows nothing, between places in code, and `filled`: the text
  with something else there.
- `Slot.sights_eq`, `Slot.sights_filled`: what the text shows without it and with it.
- `Slot.closingIn_filled`: where the closing parenthesis goes.
- `Slot.balanced_filled`: a call stays balanced when a slot among its arguments is filled, and its
  arguments are filled likewise.
-/

namespace SourceStamp

open Stamp (Tidy shownAfter)

/-- A stretch of a text that shows nothing, between two places in code. -/
structure Slot (t : Text) (i j : Nat) : Prop where
  le : i ≤ j
  le_length : j ≤ t.length
  inCode_start : (readingAt t i).InCode
  inCode_stop : (readingAt t j).InCode
  gap : Gap t i j

/-- The text with another one in place of a stretch. -/
def filled (t : Text) (i j : Nat) (x : Text) : Text := t.take i ++ (x ++ t.drop j)

theorem length_filled {t x : Text} {i j : Nat} (hi : i ≤ t.length) :
    (filled t i j x).length = i + (x.length + (t.length - j)) := by
  simp [filled, Nat.min_eq_left hi]

theorem filled_end (t x : Text) : filled t t.length t.length x = t ++ x := by
  rw [filled, List.take_length, List.drop_length, List.append_nil]

/-- What stands after some characters is filled on its own. -/
theorem drop_filled {t x : Text} {n i j : Nat} (h : n + i ≤ t.length) :
    (filled t (n + i) (n + j) x).drop n = filled (t.drop n) i j x := by
  have hn : n ≤ (t.take (n + i)).length := by
    rw [List.length_take_of_le h]
    exact Nat.le_add_right n i
  rw [filled, filled, List.drop_append_of_le_length hn, List.drop_take, Nat.add_sub_cancel_left,
    List.drop_drop]

/-- What stands after a text that is filled stays. -/
theorem filled_append {t x : Text} {i j : Nat} (hle : i ≤ j) (hj : j ≤ t.length) (z : Text) :
    filled (t ++ z) i j x = filled t i j x ++ z := by
  rw [filled, filled, List.take_append_of_le_length (Nat.le_trans hle hj),
    List.drop_append_of_le_length hj, List.append_assoc, List.append_assoc]

/-- What is not significant is not seen. -/
theorem eq_hidden_of_not_isSignificantAt {t : Text} {p : Nat} {s : Sight}
    (h : isSignificantAt t p = false) (hs : (sights t)[p]? = some s) : s = .hidden := by
  rw [getElem?_sights] at hs
  obtain ⟨c, hc, rfl⟩ := Option.map_eq_some_iff.mp hs
  rw [isSignificantAt, hc, Option.any_some] at h
  rw [Reading.sight]
  split
  · rfl
  · next hh =>
    rw [Bool.eq_false_iff.mpr hh, Bool.not_false, Bool.true_and] at h
    rw [Visit.sight]
    exact if_neg (Bool.eq_false_iff.mp h)

/-- Nothing is seen in a gap. -/
theorem Gap.eq_hidden {t : Text} {first stop : Nat} (h : Gap t first stop) {s : Sight}
    (hs : s ∈ ((sights t).drop first).take (stop - first)) : s = .hidden := by
  obtain ⟨k, hk, hget⟩ := List.mem_iff_getElem.mp hs
  rw [List.length_take, List.length_drop, length_sights] at hk
  have hplace : (sights t)[first + k]? = some s := by
    rw [← hget, List.getElem_take, List.getElem_drop]
    exact List.getElem?_eq_getElem _
  refine eq_hidden_of_not_isSignificantAt ?_ hplace
  rw [Bool.eq_false_iff]
  intro hsig
  have := h (first + k) hsig (Nat.le_add_right first k)
  omega

namespace Slot

variable {t x : Text} {i j : Nat}

theorem length_sights_take (h : Slot t i j) : (sights (t.take i)).length = i := by
  rw [length_sights, List.length_take_of_le (Nat.le_trans h.le h.le_length)]

/-- The text around a slot is seen on its own. -/
theorem sights_eq (h : Slot t i j) :
    ∃ d : List Sight, (∀ s ∈ d, s = .hidden) ∧ d.length = j - i ∧
      sights t = sights (t.take i) ++ (d ++ sights (t.drop j)) := by
  have hle := h.le
  have hlength := h.le_length
  have hstart := sights_split h.inCode_start
  have hstop := sights_split h.inCode_stop
  have hi := h.length_sights_take
  have hj : (sights (t.take j)).length = j := by
    rw [length_sights, List.length_take_of_le hlength]
  have htake : (sights t).take i = sights (t.take i) := by rw [hstart, List.take_left' hi]
  have hdrop : (sights t).drop j = sights (t.drop j) := by rw [hstop, List.drop_left' hj]
  refine ⟨((sights t).drop i).take (j - i), ?_, ?_, ?_⟩
  · exact fun s hs => h.gap.eq_hidden hs
  · rw [List.length_take, List.length_drop, length_sights]
    omega
  · rw [← htake, ← hdrop]
    have hmiddle : (sights t).drop j = ((sights t).drop i).drop (j - i) := by
      rw [List.drop_drop, Nat.add_sub_cancel' hle]
    rw [hmiddle, List.take_append_drop, List.take_append_drop]

/-- What is put there is seen on its own too. -/
theorem sights_filled (h : Slot t i j) (hx : Tidy x) (hne : x ≠ []) :
    sights (filled t i j x) = sights (t.take i) ++ (sights x ++ sights (t.drop j)) := by
  have hhead : (x ++ t.drop j).head? = x.head? := by
    obtain ⟨c, x', rfl⟩ := List.exists_cons_of_ne_nil hne
    rfl
  have hcode : (Reading.start.read (x ++ t.drop j).head? (t.take i)).InCode := by
    rw [hhead, Reading.read_change_following hx.head_ne.1 hx.head_ne.2 h.inCode_start]
    exact h.inCode_start
  rw [filled, sights_append hcode, hx.sights_append]

/-- What stands before it is seen as before. -/
theorem getElem?_sights_filled (h : Slot t i j) (hx : Tidy x) (hne : x ≠ []) {p : Nat} (hp : p < i) :
    (sights (filled t i j x))[p]? = (sights t)[p]? := by
  have hlength := h.length_sights_take
  obtain ⟨d, -, -, hsights⟩ := h.sights_eq
  rw [h.sights_filled hx hne, hsights, List.getElem?_append_left (by omega),
    List.getElem?_append_left (by omega)]

/-- The end of a text that ends in code. -/
theorem of_end (hend : (readingAt t t.length).InCode) : Slot t t.length t.length :=
  ⟨Nat.le_refl _, Nat.le_refl _, hend, hend, fun _ _ hle => hle⟩

/-! ## Calls -/

variable {source : Text} {opened closed : Nat}

/-- A slot among the arguments of a call is one of the source text. -/
theorem in_source (hb : Balanced source opened closed)
    (h : Slot (ArgumentList.find source opened).text i j) :
    Slot source (opened + 1 + i) (opened + 1 + j) where
  le := Nat.add_le_add_left h.le _
  le_length := by
    have hlength := h.le_length
    have hclosed := ArgumentList.length_text hb
    have hlt := hb.closed_spec.2.lt
    omega
  inCode_start :=
    (hb.standsAt.agree (Nat.le_trans h.le h.le_length)).symm.inCode h.inCode_start
  inCode_stop := (hb.standsAt.agree h.le_length).symm.inCode h.inCode_stop
  gap := hb.standsAt.gap_add h.gap h.le_length

/-- **Filling a slot** after an opening parenthesis moves the closing one along. -/
theorem closingIn_filled (h : Slot source i j) (hx : Tidy x) (hne : x ≠ []) {n : Nat}
    (hi : opened < i) (hj : j ≤ opened + 1 + n)
    (hn : closingIn 0 (shownAfter source opened) = some n) :
    ∃ m, m + (j - i) = n ∧
      closingIn 0 (shownAfter (filled source i j x) opened) = some (m + x.length) := by
  have hle := h.le
  have hlength := h.length_sights_take
  obtain ⟨d, hd, hdlength, hsights⟩ := h.sights_eq
  -- what is shown after the opening parenthesis, up to the slot and from it on
  let u := (sights (source.take i)).drop (opened + 1)
  let w := sights (source.drop j)
  have hu : u.length = i - (opened + 1) := by rw [List.length_drop, hlength]
  have hshown : shownAfter source opened = u ++ (d ++ w) := by
    rw [shownAfter, hsights, List.drop_append_of_le_length (by omega)]
  have hshown' : shownAfter (filled source i j x) opened = u ++ (sights x ++ w) := by
    rw [shownAfter, h.sights_filled hx hne, List.drop_append_of_le_length (by omega)]
  have hparen : ∀ s ∈ d, s.isParen = false := fun s hs => by rw [hd s hs]; rfl
  rw [hshown, closingIn_insert hparen] at hn
  obtain ⟨m, hm, hmn⟩ := Option.map_eq_some_iff.mp hn
  -- the parenthesis stands behind the slot
  have hge : ¬ m < u.length := by
    intro hlt
    rw [if_pos hlt] at hmn
    omega
  rw [if_neg hge] at hmn
  refine ⟨m, by omega, ?_⟩
  rw [hshown', closingIn_insert hx.not_isParen, hm, Option.map_some, if_neg hge, length_sights]

/-- **Filled calls**: the call ends with the same parenthesis as before, and its arguments are
filled as the source text is. -/
theorem balanced_filled (hb : Balanced source opened closed)
    (h : Slot (ArgumentList.find source opened).text i j) (hx : Tidy x) (hne : x ≠ []) :
    let source' := filled source (opened + 1 + i) (opened + 1 + j) x
    (∃ closed', Balanced source' opened closed') ∧
      (ArgumentList.find source' opened).text =
        filled (ArgumentList.find source opened).text i j x := by
  intro source'
  have hlength := ArgumentList.length_text hb
  have hdrop := ArgumentList.drop_eq hb
  have hslot := h.in_source hb
  have hle := h.le
  have hle' := h.le_length
  generalize (ArgumentList.find source opened).text = t at h hlength hdrop hle' ⊢
  obtain ⟨n, hclosed, hn⟩ := Stamp.exists_closingIn hb
  obtain ⟨m, hmn, hm⟩ := hslot.closingIn_filled hx hne (by omega) (by omega) hn
  have hopen : CodeAt source' opened '(' := by
    refine (sights_eq_code_iff.mp ?_).1
    rw [hslot.getElem?_sights_filled hx hne (by omega)]
    exact hb.opened_at.sights_eq (.inl rfl)
  have hb' := Stamp.balanced_of_closingIn hopen hm
  refine ⟨⟨_, hb'⟩, ?_⟩
  have hlength' := ArgumentList.length_text hb'
  have hdrop' := ArgumentList.drop_eq hb'
  -- after the opening parenthesis the source text is filled as its arguments are
  have hfilled : source'.drop (opened + 1) = filled t i j x ++ ')' :: source.drop (closed + 1) := by
    rw [drop_filled (Nat.le_trans hslot.le hslot.le_length), hdrop, filled_append hle hle']
  rw [hfilled] at hdrop'
  refine (List.append_inj_left hdrop' ?_).symm
  rw [length_filled (Nat.le_trans hle hle')]
  omega

end Slot

/-- A text that ends in code, and what is put after it. -/
theorem sights_append_of_tidy {t x : Text} (hend : (readingAt t t.length).InCode) (hx : Tidy x)
    (hne : x ≠ []) : sights (t ++ x) = sights t ++ sights x := by
  have hsights := (Slot.of_end hend).sights_filled hx hne
  rw [filled_end, List.take_length, List.drop_length] at hsights
  exact hsights.trans (congrArg (sights t ++ ·) (List.append_nil _))

end SourceStamp
