import SourceStamp.Proofs.Call.StampSights
import SourceStamp.Proofs.Stamping.Plan
import SourceStamp.Proofs.Text.StringLiteral

/-!
# The lines that stamps name

A stamp names the line in which its call starts, and is the only stamp in what the edit of the call
inserts.

- `LineIndex.upTo`: the line feeds up to an offset, counted one by one, and
  `LineIndex.bisect_eq_upTo`: bisection counts the same.
- `LineIndex.lineOf_ofSource`: the number of a line tells how many line feeds stand before it.
- `plan_eq_editFor?`: those numbers can be written, so planning does not fail.
- `Stamp.HoldsOnly`: a text with one stamp in it, and `Stamp.Inserted.holdsOnly`: the texts that
  edits insert are such texts, whatever path the stamp names.
- `plan_names_lines`: the theorem.
-/

namespace SourceStamp

open MonitoredCall (findAll)

/-! ## Lines -/

namespace LineIndex

/-- The number of line feeds up to an offset. -/
def upTo (index : LineIndex) (offset : Int) : Nat :=
  index.newlines.toList.countP fun n : Nat => decide ((n : Int) ≤ offset)

/-- Among ascending numbers, one lies past a bound exactly when no more than those before it do
not. -/
theorem lt_getElem_iff {ns : List Nat} (h : ns.Pairwise (· < ·)) (bound : Int) {i : Nat}
    (hi : i < ns.length) :
    bound < ns[i] ↔ ns.countP (fun n : Nat => decide ((n : Int) ≤ bound)) ≤ i := by
  induction ns generalizing i with
  | nil => exact absurd hi (Nat.not_lt_zero i)
  | cons n ns ih =>
    obtain ⟨hn, hns⟩ := List.pairwise_cons.mp h
    by_cases hle : (n : Int) ≤ bound
    · rw [List.countP_cons_of_pos (by exact decide_eq_true hle)]
      cases i with
      | zero =>
        show bound < n ↔ _
        omega
      | succ i =>
        rw [List.getElem_cons_succ, ih hns (Nat.lt_of_succ_lt_succ hi)]
        omega
    · -- the first number lies past the bound, and so do all of them
      have hpast : ∀ m ∈ n :: ns, bound < (m : Int) := by
        intro m hm
        rcases List.mem_cons.mp hm with rfl | hm
        · omega
        · have := hn m hm
          omega
      have hnone : (n :: ns).countP (fun m : Nat => decide ((m : Int) ≤ bound)) = 0 := by
        rw [List.countP_eq_zero]
        intro m hm
        rw [decide_eq_true_eq]
        exact Int.not_le.mpr (hpast m hm)
      rw [hnone]
      exact iff_of_true (hpast _ (List.getElem_mem hi)) (Nat.zero_le i)

theorem lt_newlines_iff (index : LineIndex) (offset : Int) {i : Nat}
    (hi : i < index.newlines.size) :
    offset < index.newlines[i] ↔ index.upTo offset ≤ i :=
  lt_getElem_iff index.ascending offset hi

/-- **Bisection counts**: each step keeps the number of line feeds between the two ends. -/
theorem bisect_eq_upTo (index : LineIndex) (offset : Int) (low high : Nat)
    (hhigh : high ≤ index.newlines.size) (hlow : low ≤ index.upTo offset)
    (hupTo : index.upTo offset ≤ high) :
    index.bisect offset low high hhigh = index.upTo offset := by
  fun_induction bisect index offset low high hhigh with
  | case1 low high hhigh hlt middle hpast ih =>
    exact ih hlow ((index.lt_newlines_iff offset _).mp hpast)
  | case2 low high hhigh hlt middle hpast ih =>
    have hmiddle := mt (index.lt_newlines_iff offset _).mpr hpast
    exact ih (Nat.lt_of_not_le hmiddle) hupTo
  | case3 low high hhigh hlt => exact Nat.le_antisymm hlow (by omega)

theorem countP_newlinesFrom (position offset : Nat) (t : Text) :
    (newlinesFrom position t).countP (fun n : Nat => decide ((n : Int) ≤ offset - 1)) =
      (t.take (offset - position)).count '\n' := by
  induction t generalizing position with
  | nil => simp [newlinesFrom]
  | cons c t ih =>
    have hrest := ih (position + 1)
    rw [newlinesFrom]
    rcases Nat.lt_or_ge position offset with hlt | hge
    · obtain ⟨i, rfl⟩ := Nat.exists_eq_add_of_lt hlt
      have hsub : position + i + 1 - position = i + 1 := by omega
      have hsub' : position + i + 1 - (position + 1) = i := by omega
      rw [hsub'] at hrest
      rw [hsub, List.take_succ_cons]
      split
      · next hc =>
        rw [List.countP_cons_of_pos (by exact decide_eq_true (by omega)), hrest, hc,
          List.count_cons_self]
      · next hc => rw [hrest, List.count_cons_of_ne hc]
    · have hsub : offset - position = 0 := Nat.sub_eq_zero_of_le hge
      have hsub' : offset - (position + 1) = 0 := by omega
      rw [hsub'] at hrest
      rw [hsub]
      split
      · rw [List.countP_cons_of_neg (by rw [decide_eq_true_eq]; omega)]
        exact hrest
      · exact hrest

/-- The number of a line tells how many line feeds stand before it. -/
theorem lineOf_ofSource (source : Text) (offset : Nat) :
    (ofSource source).lineOf offset = (source.take offset).count '\n' + 1 := by
  have hall : (ofSource source).upTo (offset - 1) ≤ (ofSource source).newlines.size :=
    List.countP_le_length
  have hcount : (ofSource source).upTo (offset - 1) = (source.take offset).count '\n' :=
    countP_newlinesFrom 0 offset source
  rw [lineOf, bisect_eq_upTo _ _ _ _ _ (Nat.zero_le _) hall, hcount]

/-- The lines of a source text can be written, unless it has more characters than any number that
can be. -/
theorem isWritable_lineOf {source : Text} (h : source.length + 1 < 10 ^ Text.longestNumeral)
    (offset : Nat) : Text.isWritable ((ofSource source).lineOf offset) = true := by
  have hcount : (source.take offset).count '\n' ≤ source.length :=
    Nat.le_trans List.count_le_length (List.length_take_le' offset source)
  rw [Text.isWritable_iff, lineOf_ofSource]
  exact Nat.lt_of_le_of_lt (Nat.succ_le_succ hcount) h

-- a line feed belongs to the line that it ends
example : (List.range 5).map (ofSource "a\n\nb".toList).lineOf = [1, 1, 2, 3, 3] := by
  decide +kernel

end LineIndex

/-- **Planning does not fail**: the edits of a plan are those that the calls get one by one, where a
line might be too long to be written. -/
theorem plan_eq_editFor? {source : Text} (h : source.length + 1 < 10 ^ Text.longestNumeral)
    (names : MonitoredNames) (path : Option Text) :
    ((callsWithArguments names source).mapM fun p : MonitoredCall × ArgumentList =>
        Stamp.editFor? p.1.kind p.2 (stampedPath path)
          ((LineIndex.ofSource source).lineOf p.1.start)).map (·.filterMap id) =
      .ok (plan names source path) := by
  have hwritten : (fun p : MonitoredCall × ArgumentList =>
      Stamp.editFor? p.1.kind p.2 (stampedPath path)
        ((LineIndex.ofSource source).lineOf p.1.start)) =
      fun p => pure (Stamp.editFor p.1.kind p.2 (stampedPath path)
        ((LineIndex.ofSource source).lineOf p.1.start)) :=
    funext fun p => Stamp.editFor?_of_isWritable (LineIndex.isWritable_lineOf h _) _ _ _
  rw [hwritten, List.mapM_pure]
  show Except.ok (List.filterMap id (List.map _ _)) = _
  rw [List.filterMap_map]
  rfl

/-! ## One stamp in a text -/

/-- Two places of a character in a text are one place, or one of them comes before the other. -/
theorem Text.append_cons_cases {c : Char} {s t s' t' : Text} (h : s ++ c :: t = s' ++ c :: t') :
    (s = s' ∧ t = t') ∨ (∃ u, s' = s ++ c :: u ∧ t = u ++ c :: t') ∨
      ∃ u, s = s' ++ c :: u ∧ t' = u ++ c :: t := by
  rcases List.append_eq_append_iff.mp h with ⟨u, rfl, hu⟩ | ⟨u, rfl, hu⟩
  · rcases List.cons_eq_append_iff.mp hu with ⟨rfl, ht⟩ | ⟨v, rfl, rfl⟩
    · exact .inl ⟨(List.append_nil s).symm, (List.cons.inj ht).2.symm⟩
    · exact .inr (.inl ⟨v, rfl, rfl⟩)
  · rcases List.cons_eq_append_iff.mp hu with ⟨rfl, ht⟩ | ⟨v, rfl, rfl⟩
    · exact .inl ⟨List.append_nil s', (List.cons.inj ht).2⟩
    · exact .inr (.inr ⟨v, rfl, rfl⟩)

namespace Stamp

open Text (doubleQuote backslash literalChar stringLiteral)

/-- The text holds one stamp and no other one, which names the path and the line. -/
def HoldsOnly (file : Text) (line : Int) (t : Text) : Prop :=
  ∃ before after, t = before ++ property file line ++ after ∧
    ∀ before' file' line' after', t = before' ++ property file' line' ++ after' →
      before' = before ∧ file' = file ∧ line' = line ∧ after' = after

/-- What stands before the path in a stamp. -/
def opening : Text := "__source: \x7b fileName: ".toList

/-- What stands after the path. -/
def ending (line : Int) : Text := ", lineNumber: ".toList ++ Text.ofInt line ++ " \x7d".toList

variable {file : Text} {line : Int}

/-- A text with a stamp, cut at the quote that opens the literal of the path. -/
theorem append_property_append (before : Text) (file : Text) (line : Int) (after : Text) :
    before ++ property file line ++ after =
      (before ++ opening) ++ doubleQuote :: (file.flatMap literalChar ++
        doubleQuote :: (ending line ++ after)) := by
  unfold property stringLiteral opening ending
  simp only [List.append_assoc, List.cons_append, List.nil_append]

theorem ofInt_append_cancel {line line' : Int} {t t' : Text}
    (h : Text.ofInt line ++ ' ' :: t = Text.ofInt line' ++ ' ' :: t') : line = line' ∧ t = t' := by
  have hspace : ∀ n, ' ' ∉ Text.ofInt n := Text.notMem_ofInt rfl (by decide)
  rcases Text.append_cons_cases h with ⟨hline, ht⟩ | ⟨u, hu, -⟩ | ⟨u, hu, -⟩
  · exact ⟨Text.ofInt_injective hline, ht⟩
  · exact absurd (hu ▸ List.mem_append_cons_self) (hspace line')
  · exact absurd (hu ▸ List.mem_append_cons_self) (hspace line)

theorem ending_append_cancel {line line' : Int} {t t' : Text}
    (h : ending line ++ t = ending line' ++ t') : line = line' ∧ t = t' := by
  unfold ending at h
  simp only [List.append_assoc] at h
  obtain ⟨hline, ht⟩ := ofInt_append_cancel (List.append_cancel_left h)
  exact ⟨hline, (List.cons.inj ht).2⟩

/-- No quote stands after the path. -/
theorem doubleQuote_notMem_ending (line : Int) : doubleQuote ∉ ending line := by
  have hline : doubleQuote ∉ Text.ofInt line := Text.notMem_ofInt rfl (by decide) line
  intro hmem
  rcases List.mem_append.mp hmem with hmem | hmem
  · exact (List.mem_append.mp hmem).elim (by decide) hline
  · exact absurd hmem (by decide)

/-- **A stamp stands alone** in a text that has no quotes besides those of its path. -/
theorem holdsOnly_append {before after : Text} (hbefore : doubleQuote ∉ before)
    (hafter : doubleQuote ∉ after) : HoldsOnly file line (before ++ property file line ++ after) := by
  have hopening : doubleQuote ∉ before ++ opening := fun hmem =>
    (List.mem_append.mp hmem).elim hbefore (by decide)
  have hending : doubleQuote ∉ ending line ++ after := fun hmem =>
    (List.mem_append.mp hmem).elim (doubleQuote_notMem_ending line) hafter
  refine ⟨before, after, rfl, fun before' file' line' after' h => ?_⟩
  rw [append_property_append, append_property_append] at h
  rcases Text.append_cons_cases h with ⟨hleft, hright⟩ | ⟨u, hu, hright⟩ | ⟨u, hu, -⟩
  · -- the same quote opens both literals
    have hread : some (file, ending line ++ after) = some (file', ending line' ++ after') := by
      rw [← Text.readLiteral?_stringLiteral, hright, Text.readLiteral?_stringLiteral]
    obtain ⟨hfile, hrest⟩ := Prod.mk.inj (Option.some.inj hread)
    obtain ⟨hline, hend⟩ := ending_append_cancel hrest
    exact ⟨(List.append_cancel_right hleft).symm, hfile.symm, hline.symm, hend.symm⟩
  · -- the other literal would open at a later quote
    rcases Text.append_cons_cases hright with ⟨-, hrest⟩ | ⟨v, -, hrest⟩ | ⟨v, hv, -⟩
    · exact absurd (hrest ▸ List.mem_append_cons_self) hending
    · exact absurd (hrest ▸ List.mem_append_cons_self) hending
    · -- one in the path stands after a backslash, and this one after a space
      have hspace : (before' ++ opening).getLast? = some ' ' := by
        rw [List.getLast?_append]
        rfl
      have hbackslash : (before' ++ opening).getLast? = some backslash := by
        have hguarded : Guarded (some doubleQuote) (u ++ doubleQuote :: v) :=
          hv ▸ guarded_flatMap file _
        rw [hu, List.getLast?_append, hguarded.getLast?_eq]
        rfl
      rw [hspace] at hbackslash
      exact absurd hbackslash (by decide)
  · exact absurd (hu ▸ List.mem_append_cons_self) hopening

/-- In the arguments that are added to a call only undefined ones stand before the stamp. -/
theorem exists_furtherArguments_eq_object (n : Nat) (file : Text) (line : Int) :
    ∃ before, doubleQuote ∉ before ∧ furtherArguments n file line = before ++ object file line := by
  induction n with
  | zero => exact ⟨[], List.not_mem_nil, rfl⟩
  | succ n ih =>
    obtain ⟨before, hbefore, heq⟩ := ih
    refine ⟨placeholder ++ (", ".toList ++ before), ?_, ?_⟩
    · intro hmem
      rcases List.mem_append.mp hmem with hmem | hmem
      · exact absurd hmem (by decide)
      · exact (List.mem_append.mp hmem).elim (by decide) hbefore
    · rw [furtherArguments_succ, heq, List.append_assoc, List.append_assoc]

/-- **The texts of edits hold one stamp**, whatever it names. -/
theorem Inserted.holdsOnly {t : Text} (h : Inserted file line t) : HoldsOnly file line t := by
  have hseparator : ∀ afterComma, doubleQuote ∉ separator afterComma := by decide
  have hbrace : doubleQuote ∉ "\x7b ".toList := by decide
  have hbrace' : doubleQuote ∉ " \x7d".toList := by decide
  cases h with
  | object => exact holdsOnly_append hbrace hbrace'
  | property afterComma =>
    have := @holdsOnly_append file line _ _ (hseparator afterComma) List.not_mem_nil
    rwa [List.append_nil] at this
  | arguments afterComma n =>
    obtain ⟨before, hbefore, heq⟩ := exists_furtherArguments_eq_object n file line
    have hfront : doubleQuote ∉ (separator afterComma ++ before) ++ "\x7b ".toList := by
      simp only [List.mem_append, not_or]
      exact ⟨⟨hseparator afterComma, hbefore⟩, hbrace⟩
    have := @holdsOnly_append file line _ _ hfront hbrace'
    show HoldsOnly file line (separator afterComma ++ furtherArguments n file line)
    rw [heq, Stamp.object]
    simpa only [List.append_assoc] using this

end Stamp

/-! ## The lines of a plan -/

/-- **Stamps name the true lines**. Bisection among the line feeds of a source text finds, for every
offset, one more than there are before it. So the plan for a source text, which consists of the edits
of its calls, tells the lines as a count would: what the edit of a call inserts holds one stamp, and
this stamp names the path and the line in which the call starts. -/
theorem plan_names_lines (names : MonitoredNames) (source : Text) (path : Option Text) :
    (∀ offset, (LineIndex.ofSource source).lineOf offset = (source.take offset).count '\n' + 1) ∧
    plan names source path = (findAll source names).filterMap (·.edit? source path) ∧
    ∀ call ∈ findAll source names, ∀ e, call.edit? source path = some e →
      Stamp.HoldsOnly (stampedPath path) ((source.take call.start).count '\n' + 1 : Nat)
        e.insertText := by
  refine ⟨LineIndex.lineOf_ofSource source, plan_eq names source path, ?_⟩
  intro call _ e he
  rw [← LineIndex.lineOf_ofSource]
  exact (Stamp.inserted he).holdsOnly

/-- A call of several lines after a line feed, in a file whose path reads like the start of a
stamp. -/
theorem plan_names_lines_second :
    ∃ call ∈ findAll "\nuse(\n)\n".toList .soleHook, ∃ e,
      call.edit? "\nuse(\n)\n".toList (some Stamp.opening) = some e ∧
      Stamp.HoldsOnly Stamp.opening 2 e.insertText := by
  have hmem : (⟨"use".toList, .hook, 1, 5⟩ : MonitoredCall) ∈
      findAll "\nuse(\n)\n".toList .soleHook := by
    simp only [MonitoredCall.findAll_eq, Occurrence.isCall, classify_eq]
    decide +kernel
  have hedit : MonitoredCall.edit? "\nuse(\n)\n".toList (some Stamp.opening)
      ⟨"use".toList, .hook, 1, 5⟩ = some (.replace 5 6 (Stamp.object Stamp.opening 2)) := by
    simp only [MonitoredCall.edit?, ArgumentList.find, Scanner.closingParen_eq, Scanner.visits_eq,
      Stamp.editFor, ArgumentList.layout, ArgumentLayout.ofText]
    decide +kernel
  have hpath : stampedPath (some Stamp.opening) = Stamp.opening := by decide +kernel
  have hholds := (plan_names_lines .soleHook "\nuse(\n)\n".toList (some Stamp.opening)).2.2 _ hmem
    _ hedit
  rw [hpath] at hholds
  exact ⟨_, hmem, _, hedit, hholds⟩

end SourceStamp
