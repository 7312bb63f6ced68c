import SourceStamp.Proofs.Call.Declaration
import SourceStamp.Proofs.Call.Search

/-!
# Texts that differ in plain comments only

Two texts of the same lexical structure may differ in what their comments say. As long as the angle
brackets are the same, a monitored name outside comments opens the same call in both.

- `SameOutside`: such texts, and `SameOutside.callAt_eq`.
- `SameOutside.not_covered_iff`: the calls outside comments that an earlier occurrence covers are the
  same as well, since an occurrence that starts in a comment covers no such call.
-/

namespace SourceStamp

open Text (isBlank isBoundary)

/-- What the opening of a call asks of a character: whether it is an angle bracket. -/
def angle (c : Char) : Char := if c = '<' ∨ c = '>' then c else ' '

/-- The texts have the same lexical structure and the same angle brackets, of which none stands in a
comment, and they are the same outside comments. -/
structure SameOutside (t t' : Text) : Prop where
  agree : ∀ i, (readingAt t i).Agree (readingAt t' i)
  getElem_eq : ∀ i, isCommentText t i = false → t[i]? = t'[i]?
  angles : t.map angle = t'.map angle
  no_angle : ∀ i c, isCommentText t i = true → t[i]? = some c → angle c = ' '

namespace SameOutside

variable {t t' : Text}

theorem isCommentText_eq (h : SameOutside t t') (i : Nat) :
    isCommentText t i = isCommentText t' i := by
  rw [isCommentText, isCommentText, (h.agree i).state_eq, (h.agree i).halfway_eq,
    (h.agree (i + 1)).state_eq]

theorem length_eq (h : SameOutside t t') : t.length = t'.length := by
  simpa using congrArg List.length h.angles

theorem symm (h : SameOutside t t') : SameOutside t' t := by
  refine ⟨fun i => (h.agree i).symm, fun i hi => (h.getElem_eq i (h.isCommentText_eq i ▸ hi)).symm,
    h.angles.symm, ?_⟩
  intro i c hi hc
  have hmap : (t.map angle)[i]? = some (angle c) := by rw [h.angles, List.getElem?_map, hc]; rfl
  rw [List.getElem?_map] at hmap
  obtain ⟨d, hd, heq⟩ := Option.map_eq_some_iff.mp hmap
  rw [← heq]
  exact h.no_angle i d (h.isCommentText_eq i ▸ hi) hd

/-- A stretch of one text without slashes, from a place outside comments on, is in the other text as
well. -/
theorem drop_eq (h : SameOutside t t') {p : Nat} (hp : (readingAt t p).state.inComment = false)
    {x rest : Text} (hx : '/' ∉ x) (hdrop : t.drop p = x ++ rest) :
    t'.drop p = x ++ t'.drop (p + x.length) ∧
      (readingAt t (p + x.length)).state.inComment = false := by
  have hget : ∀ i, i < x.length → t[p + i]? = x[i]? := fun i hi => by
    rw [← List.getElem?_drop, hdrop, List.getElem?_append_left hi]
  have hslash : ∀ y, p ≤ y → y < p + x.length → t[y]? ≠ some '/' := by
    intro y h1 h2 hy
    obtain ⟨i, rfl⟩ := Nat.exists_eq_add_of_le h1
    rw [hget i (by omega)] at hy
    exact hx (List.mem_of_getElem? hy)
  have hout : ∀ i, i ≤ x.length → (readingAt t (p + i)).state.inComment = false := fun i hi =>
    not_inComment_add hp i fun y h1 h2 => hslash y h1 (by omega)
  refine ⟨?_, hout x.length (Nat.le_refl _)⟩
  have htake : (t'.drop p).take x.length = x := by
    refine List.ext_getElem? ?_
    intro i
    rw [List.getElem?_take]
    split
    · next hi =>
      rw [List.getElem?_drop, ← h.getElem_eq _ (not_isCommentText_of_not_inComment
        (hout i (Nat.le_of_lt hi))), hget i hi]
    · next hi => rw [List.getElem?_eq_none (Nat.le_of_not_lt hi)]
  conv => lhs; rw [← List.take_append_drop x.length (t'.drop p), htake, List.drop_drop]

end SameOutside

/-! ## The opening of a call -/

theorem angle_eq_iff {c d : Char} (h : angle c = angle d) :
    (c = '<' ↔ d = '<') ∧ (c = '>' ↔ d = '>') := by
  unfold angle at h
  split at h <;> split at h
  · rw [h]
    exact ⟨Iff.rfl, Iff.rfl⟩
  · next hc _ => rcases hc with rfl | rfl <;> cases h
  · next _ hd => rcases hd with rfl | rfl <;> cases h
  · next hc hd =>
    rw [not_or] at hc hd
    exact ⟨⟨fun he => absurd he hc.1, fun he => absurd he hd.1⟩,
      ⟨fun he => absurd he hc.2, fun he => absurd he hd.2⟩⟩

/-- The search for the end of type arguments looks at angle brackets only. -/
theorem afterClosingAngle_congr {nested : Bool} {t t' after : Text}
    (h : afterClosingAngle nested t = some after) (heq : t.map angle = t'.map angle) :
    ∃ inside inside' after', t = inside ++ '>' :: after ∧ t' = inside' ++ '>' :: after' ∧
      inside.length = inside'.length ∧ afterClosingAngle nested t' = some after' := by
  induction t generalizing nested t' with
  | nil => cases h
  | cons c r ih =>
    cases t' with
    | nil => cases heq
    | cons c' r' =>
      rw [List.map_cons, List.map_cons] at heq
      injection heq with hc hr
      obtain ⟨hopen, hclose⟩ := angle_eq_iff hc
      -- one character more in both texts, at whatever depth the search goes on
      have hstep : ∀ {nested' : Bool}, afterClosingAngle nested' r = some after →
          ∃ inside inside' after', c :: r = inside ++ '>' :: after ∧
            c' :: r' = inside' ++ '>' :: after' ∧ inside.length = inside'.length ∧
              afterClosingAngle nested' r' = some after' := by
        intro nested' h
        obtain ⟨inside, inside', after', hinside, hinside', hlen, hafter⟩ := ih h hr
        exact ⟨c :: inside, c' :: inside', after', by rw [hinside]; rfl, by rw [hinside']; rfl,
          congrArg (· + 1) hlen, hafter⟩
      simp only [afterClosingAngle, ← hopen, ← hclose] at h ⊢
      by_cases h1 : c = '<'
      · rw [if_pos h1] at h ⊢
        cases nested with
        | false => exact hstep h
        | true => cases h
      · rw [if_neg h1] at h ⊢
        by_cases h2 : c = '>'
        · rw [if_pos h2] at h ⊢
          cases nested with
          | false =>
            obtain rfl := Option.some.inj h
            exact ⟨[], [], r', by rw [h2]; rfl, by rw [hclose.mp h2]; rfl, rfl, rfl⟩
          | true => exact hstep h
        · rw [if_neg h2] at h ⊢
          exact hstep h

namespace SameOutside

variable {t t' : Text}

theorem afterParen_eq (h : SameOutside t t') {p : Nat}
    (hp : (readingAt t p).state.inComment = false) {after : Text}
    (hafter : afterParen (t.drop p) = some after) :
    ∃ after', afterParen (t'.drop p) = some after' ∧ after'.length = after.length := by
  obtain ⟨blanks, hblanks, hdrop⟩ := exists_of_afterParen hafter
  have hslash : '/' ∉ blanks ++ ['('] := by
    intro hmem
    rcases List.mem_append.mp hmem with hmem | hmem
    · exact absurd (hblanks _ hmem) (by decide)
    · exact absurd (List.mem_singleton.mp hmem) (by decide)
  have hsplit : t.drop p = (blanks ++ ['(']) ++ after := by simp [hdrop]
  obtain ⟨hdrop', -⟩ := h.drop_eq hp hslash hsplit
  refine ⟨t'.drop (p + (blanks ++ ['(']).length), ?_, ?_⟩
  · rw [hdrop', List.append_assoc]
    exact afterParen_append hblanks
  · have hlen := congrArg List.length hsplit
    have hlen' := h.length_eq
    simp only [List.length_drop, List.length_append] at hlen ⊢
    omega

/-- After an angle bracket the text is outside comments. -/
theorem not_inComment_of_angle (h : SameOutside t t') {p : Nat} (hget : t[p]? = some '>') :
    (readingAt t (p + 1)).state.inComment = false := by
  cases hstate : (readingAt t p).state.inComment with
  | false => exact not_inComment_succ hstate (by rw [hget]; decide)
  | true =>
    refine Bool.eq_false_iff.mpr ?_
    intro hnext
    have hhalf : (readingAt t p).halfway = false :=
      not_halfway_of_not_isSecond (by rw [hget]; simp [Reading.IsSecond])
    exact absurd (h.no_angle p '>' (isCommentText_iff.mpr ⟨hhalf, hstate, hnext⟩) hget) (by decide)

theorem drop_eq_of_drop_append {x r : Text} {p : Nat} {c : Char} (h : t.drop p = x ++ c :: r) :
    t[p + x.length]? = some c ∧ t.drop (p + x.length + 1) = r := by
  constructor
  · rw [← List.getElem?_drop, h, List.getElem?_append_right (Nat.le_refl _), Nat.sub_self]
    rfl
  · rw [Nat.add_assoc, ← List.drop_drop, h, ← List.drop_drop, List.drop_left]
    rfl

/-- The opening of a call outside comments is found again, with an end as far on. -/
theorem afterCallOpening_eq (h : SameOutside t t') {p : Nat}
    (hp : (readingAt t p).state.inComment = false) {after : Text}
    (hafter : afterCallOpening (t.drop p) = some after) :
    ∃ after', afterCallOpening (t'.drop p) = some after' ∧ after'.length = after.length := by
  obtain ⟨rest, hrest, hparen⟩ := Option.bind_eq_some_iff.mp hafter
  have hhead : (t'.drop p).head? = (t.drop p).head? := by
    rw [List.head?_drop, List.head?_drop, h.getElem_eq p (not_isCommentText_of_not_inComment hp)]
  -- the type arguments, if there are any, end outside comments and at one offset in both texts
  have hrest' : ∃ q, (readingAt t q).state.inComment = false ∧ rest = t.drop q ∧
      afterTypeArguments (t'.drop p) = some (t'.drop q) := by
    cases hdrop : t.drop p with
    | nil =>
      rw [hdrop] at hrest
      cases hrest
      cases hparen
    | cons c r =>
      rw [hdrop, List.head?_cons] at hhead
      obtain ⟨r', hdrop'⟩ : ∃ r', t'.drop p = c :: r' := List.head?_eq_some_iff.mp hhead
      rw [hdrop] at hrest
      rw [hdrop']
      by_cases hc : c = '<'
      · -- the bracket that closes the type arguments
        rw [afterTypeArguments, if_pos hc] at hrest ⊢
        have hr : t.drop (p + 1) = r := (@drop_eq_of_drop_append t [] r p c hdrop).2
        have hr' : t'.drop (p + 1) = r' := (@drop_eq_of_drop_append t' [] r' p c hdrop').2
        have hangles : r.map angle = r'.map angle := by
          rw [← hr, ← hr', List.map_drop, List.map_drop, h.angles]
        obtain ⟨inside, inside', after', hinside, hinside', hlen, hclose⟩ :=
          afterClosingAngle_congr hrest hangles
        obtain ⟨hget, hdropped⟩ := drop_eq_of_drop_append (hr.trans hinside)
        obtain ⟨-, hdropped'⟩ := drop_eq_of_drop_append (hr'.trans hinside')
        rw [← hlen] at hdropped'
        refine ⟨p + 1 + inside.length + 1, h.not_inComment_of_angle hget, hdropped.symm, ?_⟩
        rw [hclose, hdropped']
      · rw [afterTypeArguments, if_neg hc] at hrest ⊢
        refine ⟨p, hp, ?_, by rw [hdrop']⟩
        rw [hdrop]
        exact (Option.some.inj hrest).symm
  obtain ⟨q, hq, rfl, hrest'⟩ := hrest'
  obtain ⟨after', hafter', hlen⟩ := h.afterParen_eq hq hparen
  refine ⟨after', ?_, hlen⟩
  rw [afterCallOpening, hrest']
  exact hafter'

end SameOutside

/-! ## Calls -/

namespace SameOutside

variable {t t' : Text}

theorem tryCallee_eq_some (h : SameOutside t t') {p : Nat}
    (hp : (readingAt t p).state.inComment = false) {callee : Text × CalleeKind}
    (hslash : '/' ∉ callee.1) {found : Text × CalleeKind × Nat}
    (hfound : (tryCallee (t.drop p) callee).map sizeOfFound = some found) :
    (tryCallee (t'.drop p) callee).map sizeOfFound = some found := by
  unfold tryCallee at hfound ⊢
  split at hfound
  · next hprefix =>
    obtain ⟨rest, hrest⟩ := List.isPrefixOf_iff_prefix.mp hprefix
    obtain ⟨hdrop', hout⟩ := h.drop_eq hp hslash hrest.symm
    have hprefix' : callee.1.isPrefixOf (t'.drop p) = true := by
      rw [hdrop']
      exact List.isPrefixOf_iff_prefix.mpr (List.prefix_append _ _)
    rw [if_pos hprefix']
    rw [List.drop_drop] at hfound ⊢
    cases hafter : afterCallOpening (t.drop (p + callee.1.length)) with
    | none => rw [hafter] at hfound; cases hfound
    | some after =>
      obtain ⟨after', hafter', hlen⟩ := h.afterCallOpening_eq hout hafter
      rw [hafter] at hfound
      obtain rfl := Option.some.inj hfound
      rw [hafter']
      simp [sizeOfFound, hlen]
  · cases hfound

/-- Outside comments the texts show the same callee. -/
theorem calleeAt_eq (h : SameOutside t t') {p : Nat}
    (hp : (readingAt t p).state.inComment = false) {callees : List (Text × CalleeKind)}
    (hslash : ∀ callee ∈ callees, '/' ∉ callee.1) :
    (calleeAt callees (t.drop p)).map sizeOfFound =
      (calleeAt callees (t'.drop p)).map sizeOfFound := by
  have hp' : (readingAt t' p).state.inComment = false := (h.agree p).state_eq ▸ hp
  rw [SourceStamp.calleeAt_eq, SourceStamp.calleeAt_eq, List.map_findSome?, List.map_findSome?]
  induction callees with
  | nil => rfl
  | cons callee callees ih =>
    have htry : (tryCallee (t.drop p) callee).map sizeOfFound =
        (tryCallee (t'.drop p) callee).map sizeOfFound :=
      Option.ext fun found =>
        ⟨h.tryCallee_eq_some hp (hslash callee List.mem_cons_self),
          h.symm.tryCallee_eq_some hp' (hslash callee List.mem_cons_self)⟩
    rw [List.findSome?_cons, List.findSome?_cons, Function.comp_apply, Function.comp_apply, htry,
      ih fun c hc => hslash c (List.mem_cons_of_mem callee hc)]

/-- The character before a place outside comments is the same. -/
theorem head?_take_eq (h : SameOutside t t') {p : Nat}
    (hp : (readingAt t p).state.inComment = false) (hlen : p ≤ t.length) :
    (t.take p).reverse.head? = (t'.take p).reverse.head? := by
  cases p with
  | zero => rfl
  | succ p =>
    have htext : isCommentText t p = false := by simp [isCommentText, hp]
    rw [head?_reverse_take hlen, head?_reverse_take (h.length_eq ▸ hlen), h.getElem_eq p htext]

theorem callAt_eq (h : SameOutside t t') {p : Nat}
    (hp : (readingAt t p).state.inComment = false) (hlen : p ≤ t.length)
    {callees : List (Text × CalleeKind)} (hslash : ∀ callee ∈ callees, '/' ∉ callee.1) :
    callAt callees t p = callAt callees t' p := by
  have hboundary : isBoundary (t.take p).reverse.head? t[p]? =
      isBoundary (t'.take p).reverse.head? t'[p]? := by
    rw [h.head?_take_eq hp hlen, h.getElem_eq p (not_isCommentText_of_not_inComment hp)]
  have hcallee := h.calleeAt_eq hp hslash
  rw [callAt_eq_ite, callAt_eq_ite, hboundary, hcallee, h.length_eq]

end SameOutside

/-! ## Occurrences -/

section Occurrences

variable {names : MonitoredNames} {t t' : Text}

theorem slash_not_mem_callees (names : MonitoredNames) :
    ∀ callee ∈ names.callees, '/' ∉ callee.1 := by
  rintro ⟨name, kind⟩ hmem hslash
  exact absurd ((names.callees_chars hmem).2 _ hslash) (by decide)

/-- An occurrence that starts in a comment covers no start of a call outside comments: its name ends
in the comment, no type arguments follow there, and the rest of it is blank. -/
theorem SameOutside.not_covers (h : SameOutside t t') {o : Occurrence}
    (ho : occurrenceAt names.callees t o.start = some o)
    (hstart : (readingAt t o.start).state.inComment = true) {p : Nat} {o' : Occurrence}
    (ho' : occurrenceAt names.callees t p = some o')
    (hp : (readingAt t p).state.inComment = false) (h1 : o.start < p) : o.stop ≤ p := by
  obtain ⟨-, hmem, -, opening, after, hdrop, hstop, hshape⟩ := occurrenceAt_eq_some ho
  have hchars := (names.callees_chars hmem).2
  have hget : ∀ x, o.start + o.name.length ≤ x →
      t[x]? = (opening ++ '(' :: after)[x - (o.start + o.name.length)]? := fun x hx => by
    obtain ⟨i, rfl⟩ := Nat.exists_eq_add_of_le hx
    rw [Nat.add_sub_cancel_left, Nat.add_assoc, ← List.getElem?_drop, hdrop,
      List.getElem?_append_right (Nat.le_add_right _ _), Nat.add_sub_cancel_left]
  -- the comment goes on to the end of the name
  have hname : ∀ i, i ≤ o.name.length → (readingAt t (o.start + i)).state.inComment = true := by
    intro i hi
    refine inComment_add hstart i ?_
    intro x h1 h2
    obtain ⟨j, rfl⟩ := Nat.exists_eq_add_of_le h1
    have hj : j < o.name.length := by omega
    have hcallee := hchars _ (List.getElem_mem hj)
    rw [← List.getElem?_drop, hdrop, List.getElem?_append_left hj, List.getElem?_eq_getElem hj]
    exact ⟨fun heq => ne_of_isCalleeChar hcallee (by decide) (Option.some.inj heq),
      fun heq => ne_of_isCalleeChar hcallee (by decide) (Option.some.inj heq)⟩
  have hafter : o.start + o.name.length < p := by
    refine Nat.lt_of_not_le ?_
    intro hle
    obtain ⟨i, rfl⟩ := Nat.exists_eq_add_of_le (Nat.le_of_lt h1)
    rw [hname i (by omega)] at hp
    cases hp
  refine Nat.le_of_not_lt ?_
  intro hlt
  rcases hshape with hblank | hangle
  · -- what the occurrence still covers is blanks and its parenthesis
    obtain ⟨c, hc, hcallee⟩ := exists_isCalleeChar ho'
    rw [hget p (Nat.le_of_lt hafter)] at hc
    rcases Nat.lt_or_ge (p - (o.start + o.name.length)) opening.length with hin | hge
    · rw [List.getElem?_append_left hin] at hc
      rw [isCalleeChar_of_isBlank (hblank c (List.mem_of_getElem? hc))] at hcallee
      cases hcallee
    · have hlast : p - (o.start + o.name.length) = opening.length := by omega
      rw [hlast, List.getElem?_append_right (Nat.le_refl _), Nat.sub_self] at hc
      obtain rfl := Option.some.inj hc
      exact absurd hcallee (by decide)
  · -- type arguments would open in the comment
    have hopen : t[o.start + o.name.length]? = some '<' := by
      rw [hget _ (Nat.le_refl _), Nat.sub_self, ← List.head?_eq_getElem?, List.head?_append, hangle,
        Option.some_or]
    have hstate := hname o.name.length (Nat.le_refl _)
    have hhalf : (readingAt t (o.start + o.name.length)).halfway = false :=
      not_halfway_of_not_isSecond (by rw [hopen]; simp [Reading.IsSecond])
    have hnext := inComment_succ hstate (by rw [hopen]; decide) (by rw [hopen]; decide)
    exact absurd (h.no_angle _ '<' (isCommentText_iff.mpr ⟨hhalf, hstate, hnext⟩) hopen) (by decide)

/-- An occurrence that covers a call outside comments starts outside comments. -/
theorem SameOutside.not_inComment_of_covers (h : SameOutside t t') {o : Occurrence}
    (ho : o ∈ occurrences names t) {p : Nat} (hsome : (callAt names.callees t p).isSome = true)
    (hp : (readingAt t p).state.inComment = false) (h1 : o.start < p) (h2 : p < o.stop) :
    (readingAt t o.start).state.inComment = false := by
  refine Bool.eq_false_iff.mpr ?_
  intro hstart
  obtain ⟨-, hat⟩ := (occurrences_spec names t).found_at o ho
  obtain ⟨call, hcall⟩ := Option.isSome_iff_exists.mp hsome
  obtain ⟨o', ho', -⟩ := exists_of_callAt hcall
  have := h.not_covers hat hstart ho' hp h1
  omega

/-- One step of the comparison: an occurrence of one text that covers a call is one of the other. -/
theorem SameOutside.covered (h : SameOutside t t') {p : Nat} (hlen : p ≤ t.length)
    (hsome : (callAt names.callees t p).isSome = true)
    (hp : (readingAt t p).state.inComment = false)
    (hearlier : ∀ q < p, (readingAt t q).state.inComment = false →
      (∃ o ∈ occurrences names t, o.start = q) → ∃ o ∈ occurrences names t', o.start = q)
    (hcovered : Covered (occurrences names t) p) : Covered (occurrences names t') p := by
  obtain ⟨o, ho, h1, h2⟩ := hcovered
  have hout := h.not_inComment_of_covers ho hsome hp h1 h2
  obtain ⟨o', ho', hstart⟩ := hearlier o.start h1 hout ⟨o, ho, rfl⟩
  refine ⟨o', ho', hstart ▸ h1, ?_⟩
  -- the two are the same call
  have hcall := h.callAt_eq hout (by omega) (slash_not_mem_callees names)
  have hat := ((occurrences_spec names t).found_at o ho).2
  have hat' := ((occurrences_spec names t').found_at o' ho').2
  rw [hstart] at hat'
  rw [callAt, callAt, hat, hat', Option.map_some, Option.map_some, Option.some_inj] at hcall
  rw [← congrArg MonitoredCall.stop hcall]
  exact h2

/-- **Occurrences outside comments**: the same ones are found in both texts. -/
theorem SameOutside.exists_mem_iff (h : SameOutside t t') (p : Nat) (hlen : p ≤ t.length)
    (hp : (readingAt t p).state.inComment = false) :
    (∃ o ∈ occurrences names t, o.start = p) ↔ ∃ o ∈ occurrences names t', o.start = p := by
  induction p using Nat.strongRecOn with
  | _ p ih =>
    have hp' : (readingAt t' p).state.inComment = false := (h.agree p).state_eq ▸ hp
    have hcall := h.callAt_eq hp hlen (slash_not_mem_callees names)
    rw [exists_mem_occurrences_iff, exists_mem_occurrences_iff, ← hcall]
    refine and_congr_right fun hsome => not_congr ⟨?_, ?_⟩
    · intro hcovered
      exact h.covered hlen hsome hp (fun q hq hout => (ih q hq (by omega) hout).mp) hcovered
    · intro hcovered
      refine h.symm.covered (h.length_eq ▸ hlen) (hcall ▸ hsome) hp' ?_ hcovered
      intro q hq hout
      exact (ih q hq (by omega) (by rw [(h.agree q).state_eq]; exact hout)).mpr

/-- A call outside comments is covered in both texts or in none. -/
theorem SameOutside.not_covered_iff (h : SameOutside t t') {p : Nat} (hlen : p ≤ t.length)
    (hsome : (callAt names.callees t p).isSome = true)
    (hp : (readingAt t p).state.inComment = false) :
    ¬ Covered (occurrences names t) p ↔ ¬ Covered (occurrences names t') p := by
  have hcall := h.callAt_eq hp hlen (slash_not_mem_callees names)
  have hiff := @SameOutside.exists_mem_iff names t t' h p hlen hp
  rw [exists_mem_occurrences_iff, exists_mem_occurrences_iff, ← hcall] at hiff
  simpa [hsome] using hiff

end Occurrences

end SourceStamp
