import SourceStamp.Proofs.Call.Host
import SourceStamp.Proofs.Call.StampText
import SourceStamp.Proofs.Call.Trivia

/-!
# What the stamp of a call gives way to

The arguments of a call are found and outlined from its opening parenthesis on, so what the edit of
a call replaces depends on the text from there on only.

- `closingParen_drop`: the text before a call has no say in where its arguments end.
- `Stamp.Supplants`: what an edit finds at its place, and `Stamp.exists_finds`: every edit finds
  that.
- `Stamp.Supplants.ne`: what it puts there is something else.
-/

namespace SourceStamp

/-! ## The text before a call -/

/-- A visit further on. -/
def Visit.later (k : Nat) (v : Visit) : Visit := { v with position := k + v.position }

theorem Reading.visits_add (r : Reading) (k p : Nat) (t : Text) :
    r.visits (k + p) t = (r.visits p t).map (Visit.later k) := by
  induction t generalizing r p with
  | nil => rfl
  | cons c t ih =>
    cases hh : r.halfway with
    | true => rw [visits_of_halfway hh, visits_of_halfway hh, Nat.add_assoc, ih]
    | false =>
      rw [visits_of_not_halfway hh, visits_of_not_halfway hh, Nat.add_assoc, ih]
      rfl

theorem closingAmong_later (k depth : Nat) (vs : List Visit) :
    closingAmong depth (vs.map (Visit.later k)) = (closingAmong depth vs).map (k + ·) := by
  induction vs generalizing depth with
  | nil => rfl
  | cons v vs ih =>
    rw [List.map_cons, closingAmong_cons, closingAmong_cons]
    show (if v.state ≠ .code then _ else if v.char = '(' then _
      else if v.char = ')' then _ else _) = _
    split
    · exact ih depth
    · split
      · exact ih (depth + 1)
      · split
        · cases depth with
          | zero => rfl
          | succ depth => exact ih depth
        · exact ih depth

/-- From an opening parenthesis on, the one that closes it is found without the text before. -/
theorem closingParen_drop {source : Text} {opened : Nat} (hopen : source[opened]? = some '(') :
    closingParen 0 (Scanner.ofCheckpoint source ⟨opened + 1, .code⟩) =
      (closingParen 0 (Scanner.ofCheckpoint (source.drop opened) ⟨0 + 1, .code⟩)).map
        (opened + ·) := by
  rw [Scanner.closingParen_eq, Scanner.closingParen_eq, ← closingAmong_later, Scanner.visits_eq,
    Scanner.visits_eq, ← Reading.visits_add]
  simp [Scanner.ofCheckpoint, Scanner.reading, hopen]

/-- The arguments of a call, with the parentheses around them. They are read as a text of their
own. -/
structure ArgumentList.Within (source : Text) (opened : Nat) (list : ArgumentList) : Prop where
  openParen_eq : list.openParen = opened
  closeParen_eq : list.closeParen = some ((opened + 1 + list.text.length : Nat) : Int)
  parts : ∃ before rest, source = before ++ (list.text ++ ')' :: rest) ∧
    before.length = opened + 1
  inCode : (readingAt list.text list.text.length).InCode

/-- An argument list that ends stands within the parentheses of its call. -/
theorem ArgumentList.within {source : Text} {opened : Nat} (hopen : source[opened]? = some '(')
    {close : Int} (h : (find source opened).closeParen = some close) :
    (find source opened).Within source opened := by
  have hfind := find_eq source opened
  rw [closingParen_drop hopen] at hfind
  cases hclosed : closingParen 0 (Scanner.ofCheckpoint (source.drop opened) ⟨0 + 1, .code⟩) with
  | none =>
    rw [hclosed] at hfind
    rw [hfind] at h
    cases h
  | some closed =>
    rw [hclosed] at hfind
    -- the call is balanced in the text that its opening parenthesis starts
    have hat : CodeAt (source.drop opened) 0 '(' := by
      refine ⟨?_, Reading.start_inCode⟩
      rw [List.getElem?_drop]
      exact hopen
    have hb : Balanced (source.drop opened) 0 closed := ⟨hat, hclosed⟩
    have htext :
        (find source opened).text = (find (source.drop opened) ((0 : Nat) : Int)).text := by
      rw [hfind, find_eq_some hb, List.drop_drop]
      dsimp only [Option.map_some]
      rw [Nat.add_sub_add_left, Nat.zero_add]
    have hlen := length_text hb
    have hstands := hb.standsAt
    rw [← htext] at hlen hstands
    have hopened := (List.getElem?_eq_some_iff.mp hopen).1
    refine ⟨by rw [hfind]; rfl, ?_, ⟨source.take (opened + 1),
      (source.drop opened).drop (closed + 1), ?_, ?_⟩, ?_⟩
    · have hclose : (find source opened).closeParen = some ((opened + closed : Nat) : Int) := by
        rw [hfind]
        rfl
      refine hclose.trans (congrArg (fun n : Nat => some (n : Int)) ?_)
      omega
    · rw [← hstands.drop_eq, List.drop_drop, List.take_append_drop]
    · rw [List.length_take]
      omega
    · refine (hstands.agree (Nat.le_refl _)).inCode ?_
      rw [hlen]
      exact hb.closed_spec.2.inCode

/-! ## What an edit finds at its place -/

/-- A list in three parts, the middle one before a known member. -/
theorem eq_append_between {α : Type} {t : List α} {first stop : Nat} {c : α} (hle : first ≤ stop)
    (hc : t[stop]? = some c) :
    t = t.take first ++ ((t.drop first).take (stop - first) ++ c :: t.drop (stop + 1)) := by
  obtain ⟨hlt, hget⟩ := List.getElem?_eq_some_iff.mp hc
  have hrest : t.drop stop = c :: t.drop (stop + 1) := by
    rw [List.drop_eq_getElem_cons hlt, hget]
  have hsplit := List.take_append_drop (stop - first) (t.drop first)
  rw [List.drop_drop, Nat.add_sub_cancel' hle, hrest] at hsplit
  rw [hsplit, List.take_append_drop]

namespace Stamp

/-- What an edit that stamps a call finds at its place: the deleted text, the text after it, and the
text that is put there. -/
inductive Supplants (kind : CalleeKind) (file : Text) (line : Int) : Text → Text → Text → Prop where
  /-- Nothing is deleted: the stamp is added before a closing bracket, with trivia between. -/
  | nothing {w after addition : Text} {d c : Char} (hw : Trivia w) (hd : d = ')' ∨ d = '}')
    (afterComma : Bool) (hc : c = '_' ∨ c = 'u' ∨ c = '{') :
    Supplants kind file line [] (w ++ d :: after) (separator afterComma ++ c :: addition)
  /-- Trivia in place of arguments are deleted. -/
  | list {w after : Text} (hkind : kind = .hook) (hw : Trivia w) :
    Supplants kind file line w (')' :: after) (object file line)
  /-- An object literal is deleted that holds trivia. -/
  | literal {w after : Text} (hkind : kind = .hook) (hw : Trivia w) :
    Supplants kind file line ('{' :: (w ++ ['}'])) after (object file line)

variable {source : Text} {opened : Nat} {kind : CalleeKind} {file : Text} {line : Int} {e : Edit}

/-- What is put there is not what stood there. -/
theorem Supplants.ne {deleted after inserted : Text}
    (h : Supplants kind file line deleted after inserted) (rest : Text) :
    inserted ++ rest ≠ deleted ++ after := by
  cases h with
  | @nothing w after addition d c hw hd afterComma hc =>
    have hblank : Text.isBlank d = false := by rcases hd with rfl | rfl <;> decide
    cases afterComma with
    | false =>
      -- the comma of the separator is neither trivia nor a closing bracket
      refine hw.append_ne [] (fun b hb => nomatch hb) ?_ ?_ hblank ?_ _ _
      · decide
      · decide
      · rcases hd with rfl | rfl <;> decide
    | true =>
      refine hw.append_ne [' '] (List.forall_mem_singleton.mpr (by decide)) ?_ ?_ hblank ?_ _ _
      · rcases hc with rfl | rfl | rfl <;> decide
      · rcases hc with rfl | rfl | rfl <;> decide
      · rcases hd with rfl | rfl <;> rcases hc with rfl | rfl | rfl <;> decide
  | list _ hw =>
    exact hw.append_ne [] (fun b hb => nomatch hb) (by decide) (by decide) (by decide)
      (by decide) _ _
  | literal _ hw =>
    rw [List.cons_append, List.append_assoc]
    intro heq
    -- after the brace comes a blank, and then the name of the property
    exact hw.append_ne [' '] (List.forall_mem_singleton.mpr (by decide)) (by decide) (by decide)
      (by decide) (by decide) _ _ (List.cons.inj heq).2

/-- An edit with what it finds at its place. -/
def Finds (source : Text) (kind : CalleeKind) (file : Text) (line : Int) (e : Edit) : Prop :=
  ∃ before deleted after, source = before ++ (deleted ++ after) ∧
    e.position = before.length ∧ e.stop = (before.length + deleted.length : Nat) ∧
    Supplants kind file line deleted after e.insertText

theorem exists_property_eq (file : Text) (line : Int) :
    ∃ rest, property file line = '_' :: rest := ⟨_, rfl⟩

section Places

variable {list : ArgumentList} (h : list.Within source opened)

include h

/-- An addition at the end of an argument list. -/
theorem finds_append (n : Nat) :
    Finds source kind file line (append ((opened + 1 + list.text.length : Nat) : Int) list.layout
      (List.replicate n placeholder ++ [object file line])) := by
  obtain ⟨before, rest, hsource, hbefore⟩ := h.parts
  obtain ⟨c, tail, hc, htail⟩ := exists_furtherArguments_eq_cons n file line
  refine ⟨before ++ list.text, [], ')' :: rest, ?_, ?_, ?_, ?_⟩
  · rw [hsource, List.nil_append, List.append_assoc]
  · rw [List.length_append, hbefore]
    rfl
  · rw [append, Edit.stop_insert, List.length_append, hbefore]
    rfl
  · rw [append, Edit.insert, ← furtherArguments, htail]
    exact .nothing .nil (.inl rfl) _ (.inr hc)

/-- The whole of an argument list without arguments. -/
theorem finds_whole (hkind : kind = .hook) (hempty : list.layout.isEmpty = true) :
    Finds source kind file line (.replace (opened + 1)
      ((opened + 1 + list.text.length : Nat) : Int) (object file line)) := by
  obtain ⟨before, rest, hsource, hbefore⟩ := h.parts
  refine ⟨before, list.text, ')' :: rest, hsource, ?_, ?_, ?_⟩
  · rw [hbefore]
    rfl
  · rw [Edit.stop_replace, hbefore]
  · exact .list hkind (trivia_of_gap (gap_of_isEmpty hempty) h.inCode)

/-- A pair of braces without anything between them. -/
theorem finds_literal (hkind : kind = .hook) {b : BracePair} (hpair : PairAt list.text b)
    (hinside : b.lastInside = b.opened) :
    Finds source kind file line (.replace (b.toObject (list.openParen + 1)).openBrace
      ((b.toObject (list.openParen + 1)).closeBrace + 1) (object file line)) := by
  obtain ⟨before, rest, hsource, hbefore⟩ := h.parts
  have hlt := hpair.lastInside_lt
  have hclosed := hpair.closed_at.lt
  rw [hinside] at hlt
  have hgap : Gap list.text (b.opened + 1) b.closed := hinside ▸ hpair.gap
  have htrivia := trivia_of_gap_between hgap hlt (Nat.le_of_lt hclosed)
    (hpair.opened_at.inCode_succ (by decide)) hpair.closed_at.inCode
    (by rw [hpair.closed_at.get_eq]; simp [Reading.IsSecond])
  have hbrace : list.text.take (b.opened + 1) = list.text.take b.opened ++ ['{'] := by
    rw [List.take_add_one, hpair.opened_at.get_eq]
    rfl
  have htext := eq_append_between hlt hpair.closed_at.get_eq
  rw [hbrace] at htext
  have hlength : (list.text.take b.opened).length = b.opened := by
    rw [List.length_take]
    omega
  refine ⟨before ++ list.text.take b.opened, _, list.text.drop (b.closed + 1) ++ ')' :: rest, ?_,
    ?_, ?_, .literal hkind htrivia⟩
  · calc
      source = before ++ (list.text ++ ')' :: rest) := hsource
      _ = _ := congrArg (fun t => before ++ (t ++ ')' :: rest)) htext
      _ = _ := by simp
  · rw [List.length_append, hbefore, hlength, h.openParen_eq]
    simp [Edit.replace, BracePair.toObject]
  · rw [List.length_append, hbefore, hlength, h.openParen_eq, Edit.stop_replace]
    simp only [BracePair.toObject, List.length_cons, List.length_append, List.length_nil,
      List.length_take, List.length_drop]
    omega

/-- The end of what stands between a pair of braces. -/
theorem finds_inside {b : BracePair} (hpair : PairAt list.text b) (afterComma : Bool) :
    Finds source kind file line (.insert (b.toObject (list.openParen + 1)).contentEnd
      (separator afterComma ++ property file line)) := by
  obtain ⟨before, rest, hsource, hbefore⟩ := h.parts
  have hlt := hpair.lastInside_lt
  have hclosed := hpair.closed_at.lt
  have htrivia := trivia_of_gap_between hpair.gap hlt (Nat.le_of_lt hclosed) hpair.inCode_succ
    hpair.closed_at.inCode (by rw [hpair.closed_at.get_eq]; simp [Reading.IsSecond])
  have htext := eq_append_between hlt hpair.closed_at.get_eq
  have hlength : (list.text.take (b.lastInside + 1)).length = b.lastInside + 1 := by
    rw [List.length_take]
    omega
  obtain ⟨tail, htail⟩ := exists_property_eq file line
  rw [htail]
  refine ⟨before ++ list.text.take (b.lastInside + 1), [],
    (list.text.drop (b.lastInside + 1)).take (b.closed - (b.lastInside + 1)) ++
      '}' :: (list.text.drop (b.closed + 1) ++ ')' :: rest), ?_, ?_, ?_,
    .nothing htrivia (.inr rfl) afterComma (.inl rfl)⟩
  · calc
      source = before ++ (list.text ++ ')' :: rest) := hsource
      _ = _ := congrArg (fun t => before ++ (t ++ ')' :: rest)) htext
      _ = _ := by simp
  · rw [List.length_append, hbefore, hlength, h.openParen_eq]
    simp only [Edit.insert, BracePair.toObject]
    omega
  · rw [List.length_append, hbefore, hlength, h.openParen_eq, Edit.stop_insert]
    simp only [BracePair.toObject, List.length_nil]
    omega

end Places

/-- **What edits find**: an edit that stamps a call adds to its arguments, or replaces trivia or an
object literal of trivia. -/
theorem exists_finds (hopen : source[opened]? = some '(')
    (he : editFor kind (ArgumentList.find source opened) file line = some e) :
    Finds source kind file line e := by
  obtain ⟨close, hclose, hform⟩ := exists_editForm he
  have h := ArgumentList.within hopen hclose
  obtain rfl := Option.some.inj (h.closeParen_eq.symm.trans hclose)
  cases hform with
  | whole hkind hempty =>
    rw [h.openParen_eq]
    exact finds_whole h hkind hempty
  | literal hkind ho hempty =>
    obtain ⟨b, hpair, rfl⟩ := lastObject_at ho
    exact finds_literal h hkind hpair (by simpa [BracePair.toObject] using hempty)
  | joined _ ho _ =>
    obtain ⟨b, hpair, rfl⟩ := lastObject_at ho
    exact finds_inside h hpair _
  | added n => exact finds_append h n

end Stamp
end SourceStamp
