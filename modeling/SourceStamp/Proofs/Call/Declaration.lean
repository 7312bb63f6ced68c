import SourceStamp.Proofs.Call.Place
import SourceStamp.Proofs.Lexis.CommentText

/-!
# Names in declarations

A call is passed over when the keyword of a function declaration stands before it. The search for
the keyword goes through the text alone, and so finds it in comments as well.

- `DeclaredAt`: the keyword and blanks up to an offset, and `endsInDeclaration_iff`: the search
  finds just that.
- `DeclaredAt.of_blankComments`: a keyword that is found when the comments are blank is found in the
  source text.
- `DeclaredAt.blankComments`: the converse, unless the keyword is text of a comment.
-/

namespace SourceStamp

open Text (isBlank)

/-- The keyword of a declaration at one offset, with nothing but blanks from there up to another. -/
structure DeclaredAt (t : Text) (k p : Nat) : Prop where
  keyword : declarationKeyword <+: t.drop k
  lt : k + declarationKeyword.length < p
  blanks : ∀ x c, k + declarationKeyword.length ≤ x → x < p → t[x]? = some c → isBlank c = true
  before : k ≠ 0 → ∀ c, t[k - 1]? = some c → isNameChar c = false

theorem declarationKeyword_chars :
    ∀ c ∈ declarationKeyword, c ≠ '/' ∧ c ≠ '\n' ∧ isBlank c = false := by
  have hall : declarationKeyword.all
      (fun c => decide (c ≠ '/' ∧ c ≠ '\n' ∧ isBlank c = false)) = true := by decide
  intro c hc
  exact of_decide_eq_true (List.all_eq_true.mp hall c hc)

/-- The letters of the keyword. -/
theorem getElem?_of_keyword {t : Text} {k : Nat} (h : declarationKeyword <+: t.drop k) {x : Nat}
    (hk : k ≤ x) (hx : x < k + declarationKeyword.length) :
    ∃ c ∈ declarationKeyword, t[x]? = some c := by
  obtain ⟨rest, hrest⟩ := h
  obtain ⟨i, rfl⟩ := Nat.exists_eq_add_of_le hk
  have hi : i < declarationKeyword.length := by omega
  refine ⟨declarationKeyword[i], List.getElem_mem hi, ?_⟩
  rw [← List.getElem?_drop, ← hrest, List.getElem?_append_left hi, List.getElem?_eq_getElem hi]

theorem getElem?_ne_slash_of_keyword {t : Text} {k : Nat} (h : declarationKeyword <+: t.drop k)
    {x : Nat} (hk : k ≤ x) (hx : x < k + declarationKeyword.length) : t[x]? ≠ some '/' := by
  intro hslash
  obtain ⟨c, hc, hget⟩ := getElem?_of_keyword h hk hx
  rw [hslash] at hget
  exact (declarationKeyword_chars c hc).1 (Option.some.inj hget).symm

/-- A keyword at an offset depends on its letters only. -/
theorem keyword_congr {t t' : Text} {k : Nat} (h : declarationKeyword <+: t.drop k)
    (heq : ∀ x, k ≤ x → x < k + declarationKeyword.length → t'[x]? = t[x]?) :
    declarationKeyword <+: t'.drop k := by
  rw [List.prefix_iff_getElem?] at h ⊢
  intro i hi
  rw [List.getElem?_drop, heq (k + i) (by omega) (by omega), ← List.getElem?_drop]
  exact h i hi

/-- What the search for the keyword finds before an offset. -/
theorem endsInDeclaration_iff {t : Text} :
    endsInDeclaration t.reverse = true ↔
      ∃ front blanks, t = front ++ (declarationKeyword ++ blanks) ∧ blanks ≠ [] ∧
        (∀ c ∈ blanks, isBlank c = true) ∧ ∀ c, front.getLast? = some c → isNameChar c = false := by
  simp only [endsInDeclaration, Bool.and_eq_true, Bool.not_eq_true']
  constructor
  · rintro ⟨⟨hhead, hkeyword⟩, hrest⟩
    obtain ⟨rest, hword⟩ := List.isPrefixOf_iff_prefix.mp hkeyword
    have hsplit := List.takeWhile_append_dropWhile (p := isBlank) (l := t.reverse)
    have hblank : ∀ c ∈ t.reverse.takeWhile isBlank, isBlank c = true := fun c hc =>
      List.all_eq_true.mp List.all_takeWhile c hc
    have hne : t.reverse.takeWhile isBlank ≠ [] := by
      cases hbefore : t.reverse with
      | nil => rw [hbefore] at hhead; cases hhead
      | cons c before =>
        rw [hbefore, List.head?_cons, Option.any_some] at hhead
        rw [List.takeWhile_cons_of_pos hhead]
        exact List.cons_ne_nil _ _
    -- the search goes backwards, so the word it finds is the keyword in reverse
    rw [← hword, ← List.length_reverse, List.drop_left] at hrest
    rw [← hword] at hsplit
    refine ⟨rest.reverse, (t.reverse.takeWhile isBlank).reverse, ?_, by simpa using hne,
      fun c hc => hblank c (List.mem_reverse.mp hc), ?_⟩
    · have := congrArg List.reverse hsplit
      simpa using this.symm
    · intro c hc
      rw [List.getLast?_reverse] at hc
      rw [hc] at hrest
      simpa using hrest
  · rintro ⟨front, blanks, rfl, hne, hblank, hfront⟩
    -- the keyword ends with a letter, so exactly the blanks are skipped
    have hword : (front ++ (declarationKeyword ++ blanks)).reverse.dropWhile isBlank =
        declarationKeyword.reverse ++ front.reverse := by
      rw [List.reverse_append, List.reverse_append, List.append_assoc,
        List.dropWhile_append_of_pos fun c hc => hblank c (List.mem_reverse.mp hc)]
      exact List.dropWhile_cons_of_neg (by decide)
    rw [hword]
    refine ⟨⟨?_, ?_⟩, ?_⟩
    · rw [List.reverse_append, List.reverse_append, List.append_assoc, List.head?_append,
        List.head?_reverse, List.getLast?_eq_some_getLast hne, Option.some_or, Option.any_some]
      exact hblank _ (List.getLast_mem hne)
    · exact List.isPrefixOf_iff_prefix.mpr (List.prefix_append _ _)
    · rw [← List.length_reverse, List.drop_left, List.head?_reverse]
      cases hlast : front.getLast? with
      | none => rfl
      | some c => simpa using hfront c hlast

/-- The search finds the keyword exactly where it stands. -/
theorem endsInDeclaration_take_iff {t : Text} {p : Nat} (hp : p ≤ t.length) :
    endsInDeclaration (t.take p).reverse = true ↔ ∃ k, DeclaredAt t k p := by
  rw [endsInDeclaration_iff]
  constructor
  · rintro ⟨front, blanks, htake, hne, hblank, hfront⟩
    have hlen := congrArg List.length htake
    simp only [List.length_take, List.length_append] at hlen
    have hpos := List.length_pos_iff.mpr hne
    have ht : t = front ++ (declarationKeyword ++ (blanks ++ t.drop p)) := by
      rw [← List.append_assoc declarationKeyword, ← List.append_assoc, ← htake,
        List.take_append_drop]
    refine ⟨front.length, ?_, by omega, ?_, ?_⟩
    · rw [ht, List.drop_left]
      exact List.prefix_append _ _
    · intro x c h1 h2 hx
      rw [ht, List.getElem?_append_right (by omega), List.getElem?_append_right (by omega),
        List.getElem?_append_left (by omega)] at hx
      exact hblank c (List.mem_of_getElem? hx)
    · intro hk c hc
      rw [ht, List.getElem?_append_left (by omega)] at hc
      exact hfront c (by rw [List.getLast?_eq_getElem?, hc])
  · rintro ⟨k, ⟨rest, hrest⟩, hlt, hblanks, hbefore⟩
    -- `n + 1` blanks stand between the keyword and the offset
    obtain ⟨n, rfl⟩ := Nat.exists_eq_add_of_lt hlt
    refine ⟨t.take k, rest.take (n + 1), ?_, ?_, ?_, ?_⟩
    · rw [Nat.add_assoc, Nat.add_assoc, List.take_add, ← hrest, List.take_length_add_append]
    · refine List.ne_nil_of_length_pos ?_
      have hlen := congrArg List.length hrest
      simp only [List.length_append, List.length_drop] at hlen
      rw [List.length_take]
      omega
    · intro c hc
      obtain ⟨x, hx⟩ := List.mem_iff_getElem?.mp hc
      have hxn : x < n + 1 := by
        refine Nat.lt_of_not_le ?_
        intro hle
        rw [List.getElem?_take, if_neg (by omega)] at hx
        cases hx
      rw [List.getElem?_take, if_pos hxn] at hx
      refine hblanks (k + declarationKeyword.length + x) c (by omega) (by omega) ?_
      rw [Nat.add_assoc, ← List.getElem?_drop, ← hrest,
        List.getElem?_append_right (Nat.le_add_right _ _), Nat.add_sub_cancel_left, hx]
    · intro c hc
      cases k with
      | zero => cases hc
      | succ k =>
        refine hbefore (Nat.succ_ne_zero k) c ?_
        rw [List.getLast?_eq_getElem?, List.length_take, List.getElem?_take] at hc
        have hk : min (k + 1) t.length - 1 = k := by omega
        rw [hk, if_pos (Nat.lt_succ_self k)] at hc
        exact hc

/-! ## Keywords in comments -/

variable {source : Text} {k p : Nat}

theorem isCommentText_blankComments (source : Text) (i : Nat) :
    isCommentText (blankComments source) i = isCommentText source i := by
  have h := agree_blankComments source i
  have h' := agree_blankComments source (i + 1)
  rw [isCommentText, isCommentText, h.halfway_eq, h.state_eq, h'.state_eq]

/-- What stands for a character that is not the one of the source text. -/
theorem isCommentText_of_ne {j : Nat} (h : (blankComments source)[j]? ≠ source[j]?) :
    isCommentText source j = true ∧ (blankComments source)[j]? = some ' ' := by
  rw [getElem?_blankComments] at h ⊢
  cases hget : source[j]? with
  | none => rw [hget] at h; exact absurd rfl h
  | some c =>
    rw [hget, Option.map_some] at h
    rw [Option.map_some]
    by_cases hblank : isCommentText source j = true ∧ c ≠ '\n'
    · rw [if_pos hblank]
      exact ⟨hblank.1, rfl⟩
    · rw [if_neg hblank] at h
      exact absurd rfl h

/-- What a blanked text has inside comments. -/
theorem blank_of_isCommentText {j : Nat} (h : isCommentText source j = true) {c : Char}
    (hc : (blankComments source)[j]? = some c) : isBlank c = true := by
  rw [getElem?_blankComments_of_isCommentText h] at hc
  obtain ⟨d, -, hd⟩ := Option.map_eq_some_iff.mp hc
  split at hd
  · next hfeed => rw [← hd, hfeed]; decide
  · rw [← hd]; decide

/-- No blanked character stands between the keyword and code: a comment there would have to end
before the code, and what ends it is no letter of the keyword, nor a blank, except for the line feed
of a comment that is all blank and so holds no keyword. -/
theorem DeclaredAt.getElem?_eq (h : DeclaredAt (blankComments source) k p)
    (hp : (readingAt source p).InCode) {j : Nat} (hk : k ≤ j + 1) (hj : j < p) :
    (blankComments source)[j]? = source[j]? := by
  refine Classical.byContradiction ?_
  intro hne
  obtain ⟨htext, hspace⟩ := isCommentText_of_ne hne
  have hcode : (readingAt (blankComments source) p).InCode :=
    (agree_blankComments source p).symm.inCode hp
  have hcomment : (readingAt (blankComments source) j).state.inComment = true := by
    rw [(agree_blankComments source j).state_eq]
    exact (isCommentText_iff.mp htext).2.1
  have hnoslash : ∀ x, k ≤ x → x < p → (blankComments source)[x]? ≠ some '/' := by
    intro x h1 h2 hslash
    rcases Nat.lt_or_ge x (k + declarationKeyword.length) with hlt | hge
    · exact getElem?_ne_slash_of_keyword h.keyword h1 hlt hslash
    · exact absurd (h.blanks x '/' hge h2 hslash) (by decide)
  have hnoslash' : ∀ x, j ≤ x → x < p → (blankComments source)[x]? ≠ some '/' := by
    intro x h1 h2 hslash
    rcases Nat.eq_or_lt_of_le h1 with rfl | h1
    · rw [hspace] at hslash
      cases hslash
    · exact hnoslash x (by omega) h2 hslash
  obtain ⟨m, hjm, hmp, hslash | ⟨hfeed, hstate, hhalf⟩⟩ :=
    exists_comment_end hcode (Nat.le_of_lt hj) hcomment
  · exact hnoslash' m hjm hmp hslash
  · have hm : m ≤ (blankComments source).length :=
      Nat.le_of_lt (List.getElem?_eq_some_iff.mp hfeed).1
    obtain ⟨a, ham, hslash, -, hinside⟩ := exists_comment_start hm hstate hhalf
    -- the keyword stands between the start of the comment and its end
    have hak : a < k := by
      refine Nat.lt_of_not_le ?_
      intro hle
      exact hnoslash a hle (Nat.lt_trans ham hmp) hslash
    have hkm : k ≤ m := by
      have hne : j ≠ m := by
        rintro rfl
        rw [hspace] at hfeed
        cases hfeed
      omega
    have hlt : k < k + declarationKeyword.length := Nat.lt_add_of_pos_right (by decide)
    obtain ⟨c, hc, hget⟩ := getElem?_of_keyword h.keyword (Nat.le_refl k) hlt
    obtain ⟨-, hcfeed, hcblank⟩ := declarationKeyword_chars c hc
    rcases Nat.eq_or_lt_of_le hkm with rfl | hkm
    · rw [hfeed] at hget
      exact hcfeed (Option.some.inj hget).symm
    · have := hinside k hak hkm
      rw [isCommentText_blankComments] at this
      rw [blank_of_isCommentText this hget] at hcblank
      cases hcblank

/-- A keyword that is found when the comments are blank is found in the source text. -/
theorem DeclaredAt.of_blankComments (h : DeclaredAt (blankComments source) k p)
    (hp : (readingAt source p).InCode) : DeclaredAt source k p := by
  have hlt := h.lt
  refine ⟨keyword_congr h.keyword ?_, hlt, ?_, ?_⟩
  · intro x h1 h2
    exact (h.getElem?_eq hp (by omega) (by omega)).symm
  · intro x c h1 h2 hx
    exact h.blanks x c h1 h2 ((h.getElem?_eq hp (by omega) h2).trans hx)
  · intro hk c hc
    exact h.before hk c ((h.getElem?_eq hp (by omega) (by omega)).trans hc)

theorem endsInDeclaration_of_blankComments (hp : (readingAt source p).InCode)
    (hlen : p ≤ source.length)
    (h : endsInDeclaration ((blankComments source).take p).reverse = true) :
    endsInDeclaration (source.take p).reverse = true := by
  rw [endsInDeclaration_take_iff (by rw [length_blankComments]; exact hlen)] at h
  rw [endsInDeclaration_take_iff hlen]
  obtain ⟨k, hk⟩ := h
  exact ⟨k, hk.of_blankComments hp⟩

/-- A keyword that does not begin inside a comment is outside comments. -/
theorem not_isCommentText_of_keyword (hkeyword : declarationKeyword <+: source.drop k)
    (hk : isCommentText source k = false) {x : Nat} (h1 : k ≤ x)
    (h2 : x < k + declarationKeyword.length) : isCommentText source x = false := by
  refine Bool.eq_false_iff.mpr ?_
  intro hx
  have hcomment := (isCommentText_iff.mp hx).2.1
  -- from a letter outside comments the letters lead to no comment
  have hout : ∀ y, k ≤ y → y ≤ x → (readingAt source y).state.inComment = false → False := by
    intro y hy hyx hstate
    obtain ⟨n, rfl⟩ := Nat.exists_eq_add_of_le hyx
    have := not_inComment_add hstate n fun z hz1 hz2 =>
      getElem?_ne_slash_of_keyword hkeyword (by omega) (by omega)
    rw [hcomment] at this
    cases this
  have hstate : (readingAt source k).state.inComment = true := by
    simpa using fun h => hout k (Nat.le_refl k) h1 h
  have hfirst : source[k]? = some 'f' := by
    obtain ⟨rest, hrest⟩ := hkeyword
    rw [← List.head?_drop, ← hrest]
    rfl
  have hhalf : (readingAt source k).halfway = false :=
    not_halfway_of_not_isSecond (by rw [hfirst]; simp [Reading.IsSecond])
  have hnext : (readingAt source (k + 1)).state.inComment = false := by
    simpa [isCommentText, hhalf, hstate] using hk
  rcases Nat.eq_or_lt_of_le h1 with rfl | hlt
  · rw [hk] at hx
    cases hx
  · exact hout (k + 1) (Nat.le_succ k) hlt hnext

/-- A keyword of the source text is found when the comments are blank, unless it stands in one. -/
theorem DeclaredAt.blankComments (h : DeclaredAt source k p) (hk : isCommentText source k = false) :
    DeclaredAt (blankComments source) k p := by
  refine ⟨keyword_congr h.keyword ?_, h.lt, ?_, ?_⟩
  · intro x h1 h2
    exact getElem?_blankComments_of_not (not_isCommentText_of_keyword h.keyword hk h1 h2)
  · intro x c h1 h2 hx
    by_cases heq : (SourceStamp.blankComments source)[x]? = source[x]?
    · exact h.blanks x c h1 h2 (heq ▸ hx)
    · rw [(isCommentText_of_ne heq).2] at hx
      obtain rfl := Option.some.inj hx
      decide
  · intro hk c hc
    by_cases heq : (SourceStamp.blankComments source)[k - 1]? = source[k - 1]?
    · exact h.before hk c (heq ▸ hc)
    · rw [(isCommentText_of_ne heq).2] at hc
      obtain rfl := Option.some.inj hc
      decide

theorem endsInDeclaration_blankComments (hlen : p ≤ source.length)
    (hplain : ∀ k, isCommentText source k = true → ¬ declarationKeyword <+: source.drop k)
    (h : endsInDeclaration (source.take p).reverse = true) :
    endsInDeclaration ((blankComments source).take p).reverse = true := by
  rw [endsInDeclaration_take_iff hlen] at h
  rw [endsInDeclaration_take_iff (by rw [length_blankComments]; exact hlen)]
  obtain ⟨k, hk⟩ := h
  exact ⟨k, hk.blankComments (Bool.eq_false_iff.mpr fun htext => hplain k htext hk.keyword)⟩

end SourceStamp
