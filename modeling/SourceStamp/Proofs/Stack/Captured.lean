import SourceStamp.Proofs.Stack.Lines
import SourceStamp.Proofs.Stack.Places
import SourceStamp.Proofs.Text.Decimal
import SourceStamp.Stack.TraceSource

/-!
# Captured stacks

A captured stack is read back frame by frame, whatever the names in it look like.

- `Frame.namedPlace?_place`: a function name without parentheses ends where the place starts.
- `CallFrame.parse_render`: the line of a frame names that frame.
- `parseAll_captureStack?`: the trace of a stack names its frames, if their columns can be written;
  else there is no trace.
-/

namespace SourceStamp
namespace Frame

open Text (isBlank)

/-! ## Functions -/

/-- A closing parenthesis ends a line. -/
theorem dropEndWhile_append_paren (t : Text) :
    Text.dropEndWhile (fun c => c == '\r' || c == '\n') (t ++ [')']) = t ++ [')'] := by
  refine Text.dropEndWhile_eq_self_iff.mpr fun hne => ?_
  rw [List.getLast_append_singleton]
  decide

theorem afterOpening?_append {t : Text} (hne : t ≠ []) (hlast : isBlank (t.getLast hne) = false)
    (hparen : '(' ∉ t) (rest : Text) : afterOpening? (t ++ rest) = none := by
  have hsuffix : t.dropWhile isBlank <:+ t := List.dropWhile_suffix isBlank
  have hstays : t.dropWhile isBlank ≠ [] := by
    intro hnil
    rw [List.dropWhile_eq_nil_iff.mp hnil _ (List.getLast_mem hne)] at hlast
    cases hlast
  have hrest : (t ++ rest).dropWhile isBlank = t.dropWhile isBlank ++ rest := by
    rw [List.dropWhile_append, if_neg (by rwa [List.isEmpty_iff])]
  obtain ⟨c, r, hcr⟩ := List.exists_cons_of_ne_nil hstays
  have hc : c ≠ '(' := by
    rintro rfl
    exact hparen (hsuffix.mem (hcr ▸ List.mem_cons_self))
  simp only [afterOpening?, hrest, hcr, List.cons_append, if_neg hc, ite_self]

theorem afterOpening?_opening (rest : Text) : afterOpening? (' ' :: '(' :: rest) = some rest := rfl

/-- A name that ends in no blank and holds no parenthesis is read up to the place after it. -/
theorem namedPlace?_place {name place : Text} {l : Option Location}
    (hplace : place? place = some l) (hne : name ≠ [])
    (hlast : isBlank (name.getLast hne) = false) (hparen : '(' ∉ name) (hname : '\n' ∉ name) :
    namedPlace? (name ++ ' ' :: '(' :: place) = some (name, l) := by
  induction name with
  | nil => exact absurd rfl hne
  | cons c name ih =>
    rw [List.mem_cons, not_or] at hname hparen
    rw [List.cons_append, namedPlace?, if_neg (Ne.symm hname.1)]
    by_cases hname' : name = []
    · simp only [hname', List.nil_append, afterOpening?_opening, Option.bind_some, hplace]
    · rw [List.getLast_cons hname'] at hlast
      simp only [afterOpening?_append hname' hlast hparen.2, Option.bind_none,
        ih hname' hlast hparen.2 hname.2, Option.map_some]

/-- After the word and one blank a function or a place starts at once. -/
theorem keywordForm?_at {t : Text} (h : t.head?.any isBlank = false) :
    keywordForm? ("    at ".toList ++ t) = functionAndPlace? t := by
  have hblanks : afterBlanks? t = none := by
    cases t with
    | nil => rfl
    | cons c r =>
      have hc : isBlank c = false := h
      rw [afterBlanks?, hc]
      rfl
  show afterBlanks? (' ' :: t) = _
  rw [afterBlanks?, if_pos (by decide), hblanks, Option.none_or]

/-- The keyword form with a function. -/
theorem keywordForm?_place {name place : Text} {l : Option Location}
    (hplace : place? place = some l) (hne : name ≠ []) (hstrip : Text.strip name = name)
    (hparen : '(' ∉ name) (hname : '\n' ∉ name) :
    keywordForm? ("    at ".toList ++ (name ++ ' ' :: '(' :: place)) = some (some name, l) := by
  obtain ⟨hstart, hend⟩ := Text.strip_eq_self_iff.mp hstrip
  have hlast := Text.dropEndWhile_eq_self_iff.mp hend hne
  have hhead : (name ++ ' ' :: '(' :: place).head?.any isBlank = false := by
    rw [List.head?_append_of_ne_nil name hne]
    exact Text.stripStart_eq_self_iff.mp hstart
  rw [keywordForm?_at hhead, functionAndPlace?, namedPlace?_place hplace hne hlast hparen hname]

end Frame

/-! ## Frames -/

namespace CallFrame

open Text (InLine)

/-- The column where the running instruction starts, counted from zero, if it is known. -/
def start? (f : CallFrame) : Option Int := (f.columns[f.instruction.toNat / 2]?).join

/-- The names of the frame fill one line, that of its function without an opening parenthesis and
without blanks around it, and line and column are known. -/
structure IsTraceable (f : CallFrame) : Prop where
  name_ne_nil : f.qualifiedName ≠ []
  name_paren : '(' ∉ f.qualifiedName
  name_inLine : InLine f.qualifiedName
  name_strip : Text.strip f.qualifiedName = f.qualifiedName
  file_ne_nil : f.file ≠ []
  file_inLine : InLine f.file
  line : ∃ n : Nat, f.line = some (n : Int) ∧ Text.isWritable n = true
  instruction_nonneg : 0 ≤ f.instruction
  column : ∃ c : Nat, f.start? = some (c : Int)

/-- The column that runs, counted from one, has no more digits than a numeral may have. -/
def HasShortColumn (f : CallFrame) : Prop :=
  ∀ c, f.start? = some c → Text.isWritable (c + 1) = true

/-- The frame as a trace names it, its column counted from one. -/
def named (f : CallFrame) : Frame where
  functionName := some f.qualifiedName
  filePath := some f.file
  line := f.line.map Int.toNat
  column := f.start?.map fun c => c.toNat + 1

namespace IsTraceable

variable {f : CallFrame} (h : f.IsTraceable)

include h

theorem column?_eq : f.column? = f.start?.map (· + 1) :=
  if_neg (Int.not_lt.mpr h.instruction_nonneg)

/-- What is known of the column. -/
theorem exists_start :
    ∃ c : Nat, f.start? = some (c : Int) ∧ f.column? = some ((c + 1 : Nat) : Int) := by
  obtain ⟨c, hc⟩ := h.column
  exact ⟨c, hc, by rw [h.column?_eq, hc]; rfl⟩

omit h in
/-- The line of a frame with its line and column. -/
theorem render_eq {n c : Nat} (hn : f.line = some (n : Int)) (hc : f.column? = some (c : Int)) :
    f.render = "    at ".toList ++ (f.qualifiedName ++ ' ' :: '(' ::
      (f.file ++ Frame.numbers (Text.ofNat n) (Text.ofNat c) [')'])) := by
  have hdigits : ∀ k : Nat, Text.ofInt (k : Int) = Text.ofNat k := fun _ => rfl
  have hlocation : f.location = f.file ++ ':' :: Text.ofNat n ++ ':' :: Text.ofNat c := by
    rw [location, hn, hc]
    simp only [hdigits]
  have hopening : " (".toList = [' ', '('] := rfl
  have hclosing : ")".toList = [')'] := rfl
  unfold render
  rw [hlocation, hopening, hclosing, Frame.numbers]
  simp only [List.append_assoc, List.cons_append, List.nil_append]

/-- The line of a frame names the frame, if its column can be written. -/
theorem parse_render (hcolumn : f.HasShortColumn) : Frame.parse f.render = .ok (some f.named) := by
  obtain ⟨n, hn, hline⟩ := h.line
  obtain ⟨c, hstart, hc⟩ := h.exists_start
  have hnewline : Text.isLineBreak '\n' = true := by decide
  have hplace : Frame.place? (f.file ++ Frame.numbers (Text.ofNat n) (Text.ofNat (c + 1)) [')']) =
      some (some ⟨f.file, Text.ofNat n, some (Text.ofNat (c + 1))⟩) := by
    rw [Frame.place?, Frame.location?_numbers (Frame.isDigits_ofNat n) (Frame.isDigits_ofNat (c + 1)) rfl
      h.file_ne_nil (h.file_inLine.notMem hnewline)]
  have hform := Frame.keywordForm?_place hplace h.name_ne_nil h.name_strip h.name_paren
    (h.name_inLine.notMem hnewline)
  have hkept : Text.dropEndWhile (fun c => c == '\r' || c == '\n') f.render = f.render :=
    Frame.dropEndWhile_append_paren _
  rw [Frame.parse, hkept, render_eq hn hc, hform]
  have hread : ∀ k : Nat, Text.isWritable k = true → Frame.numeral (Text.ofNat k) = .ok k := by
    intro k hk
    rw [Frame.numeral, Text.number?_ofNat hk]
  show (Frame.ofLocation _ _).map some = _
  rw [Frame.ofLocation, hread n hline]
  simp only [Option.mapM_some, hread (c + 1) (hcolumn c hstart)]
  rw [named, hn, hstart]
  rfl

theorem render_inLine : InLine f.render := by
  obtain ⟨n, hn, -⟩ := h.line
  obtain ⟨c, -, hc⟩ := h.exists_start
  have hstart : InLine "    at ".toList := by decide
  rw [render_eq hn hc]
  simp only [Frame.numbers, Text.inLine_append, Text.inLine_cons]
  exact ⟨hstart, h.name_inLine, by decide, by decide, h.file_inLine,
    ⟨⟨by decide, Text.inLine_ofNat n⟩, by decide, Text.inLine_ofNat (c + 1)⟩, by decide,
    Text.inLine_nil⟩

end IsTraceable
end CallFrame

/-! ## Stacks -/

theorem renderStack_eq (stack : List CallFrame) :
    renderStack stack none = Text.join ['\n'] ("Error".toList :: stack.map CallFrame.render) := by
  show "Error".toList ++ (stack.flatMap fun f => '\n' :: f.render) = _
  generalize "Error".toList = header
  induction stack generalizing header with
  | nil => exact List.append_nil _
  | cons f stack ih =>
    show header ++ ('\n' :: f.render ++ stack.flatMap fun f => '\n' :: f.render) =
      header ++ ['\n'] ++ Text.join ['\n'] (f.render :: stack.map CallFrame.render)
    rw [← ih f.render]
    simp only [List.append_assoc, List.cons_append, List.nil_append]

theorem shownFrames_none (stack : List CallFrame) : shownFrames stack none = stack := rfl

/-- Frames of known lines make a trace exactly when their columns can be written. -/
theorem captureStack?_eq {stack : List CallFrame} (h : ∀ f ∈ stack, f.IsTraceable) :
    ((∀ f ∈ stack, f.HasShortColumn) → captureStack? stack none = some (renderStack stack none)) ∧
      ((∃ f ∈ stack, ¬ f.HasShortColumn) → captureStack? stack none = none) := by
  have hwritable : ∀ f ∈ stack, f.isWritable = true ↔ f.HasShortColumn := by
    intro f hf
    obtain ⟨n, hn, hline⟩ := (h f hf).line
    rw [CallFrame.isWritable, hn, Option.all_some, hline, Bool.true_and, (h f hf).column?_eq,
      Option.all_map, Option.all_eq_true]
    rfl
  have hall : (shownFrames stack none).all CallFrame.isWritable = true ↔
      ∀ f ∈ stack, f.HasShortColumn := by
    rw [shownFrames_none, List.all_eq_true]
    exact forall₂_congr hwritable
  constructor
  · intro hshort
    rw [captureStack?, if_pos (hall.mpr hshort)]
  · rintro ⟨f, hf, hlong⟩
    rw [captureStack?, if_neg fun hshort => hlong (hall.mp hshort f hf)]

theorem parseAll_renderStack {stack : List CallFrame} (h : ∀ f ∈ stack, f.IsTraceable)
    (hshort : ∀ f ∈ stack, f.HasShortColumn) :
    Frame.parseAll (renderStack stack none) = .ok (stack.map CallFrame.named) := by
  -- the header names no frame
  let ls : List (Text × Option Frame) :=
    ("Error".toList, none) :: stack.map fun f => (f.render, some f.named)
  have hlines : ∀ l ∈ ls, Text.InLine l.1 ∧ l.1 ≠ [] := by
    refine List.forall_mem_cons.mpr ⟨⟨by decide, by decide⟩, ?_⟩
    intro l hl
    obtain ⟨f, hf, rfl⟩ := List.mem_map.mp hl
    exact ⟨(h f hf).render_inLine, by unfold CallFrame.render; simp⟩
  have hparse : ∀ l ∈ ls, Frame.parse l.1 = .ok l.2 := by
    refine List.forall_mem_cons.mpr ⟨rfl, ?_⟩
    intro l hl
    obtain ⟨f, hf, rfl⟩ := List.mem_map.mp hl
    exact (h f hf).parse_render (hshort f hf)
  have htexts : ls.map (·.1) = "Error".toList :: stack.map CallFrame.render := by
    simp only [ls, List.map_cons, List.map_map]
    rfl
  have hnamed : ls.filterMap Frame.named? = stack.map fun f => (f.render, f.named) := by
    show (stack.map fun f => (f.render, some f.named)).filterMap Frame.named? = _
    rw [List.filterMap_map]
    exact congrFun (List.filterMap_eq_map (f := fun f => (f.render, f.named))) stack
  rw [Frame.parseAll, renderStack_eq, ← htexts, Frame.parseLines_join hlines hparse, hnamed]
  show Except.ok ((stack.map fun f => (f.render, f.named)).map (·.2)) = _
  rw [List.map_map]
  rfl

/-- **Reading undoes capturing**: the trace of a stack whose frames are traceable and have columns
that can be written names these frames, innermost first, and nothing else. With a longer column in
one of them the stack has no trace. -/
theorem parseAll_captureStack? {stack : List CallFrame} (h : ∀ f ∈ stack, f.IsTraceable) :
    ((∀ f ∈ stack, f.HasShortColumn) → ∃ trace, captureStack? stack none = some trace ∧
      Frame.parseAll trace = .ok (stack.map CallFrame.named)) ∧
    ((∃ f ∈ stack, ¬ f.HasShortColumn) → captureStack? stack none = none) := by
  obtain ⟨hcaptured, hlong⟩ := captureStack?_eq h
  exact ⟨fun hshort => ⟨_, hcaptured hshort, parseAll_renderStack h hshort⟩, hlong⟩

/-- A frame whose names look like places. -/
def misleadingFrame : CallFrame where
  file := "at f (a.ts:1:2) @b:3".toList
  qualifiedName := "new at Foo.<a:1:2>@x".toList
  line := some 42
  instruction := 3
  columns := [none, some 8]

theorem parseAll_captureStack?_misleading :
    ∃ trace, captureStack? [misleadingFrame] none = some trace ∧
      Frame.parseAll trace = .ok [⟨some "new at Foo.<a:1:2>@x".toList,
        some "at f (a.ts:1:2) @b:3".toList, some 42, some 9⟩] := by
  have htraceable : ∀ f ∈ [misleadingFrame], f.IsTraceable :=
    List.forall_mem_singleton.mpr ⟨by decide, by decide, by decide, by decide, by decide, by decide,
      ⟨42, rfl, by decide⟩, by decide, 8, rfl⟩
  have hshort : ∀ f ∈ [misleadingFrame], f.HasShortColumn := by
    refine List.forall_mem_singleton.mpr fun c hc => ?_
    cases hc
    decide
  exact (parseAll_captureStack? htraceable).1 hshort

/-- A frame in the first line, at a column counted from zero. -/
def frameAtColumn (column : Nat) : CallFrame where
  file := "a.ts".toList
  qualifiedName := "first".toList
  line := some 1
  instruction := 0
  columns := [some column]

theorem frameAtColumn_start? (column : Nat) :
    (frameAtColumn column).start? = some (column : Int) := by
  simp [frameAtColumn, CallFrame.start?]

theorem frameAtColumn_isTraceable (column : Nat) : (frameAtColumn column).IsTraceable where
  name_ne_nil := List.cons_ne_nil _ _
  name_paren := by
    show '(' ∉ "first".toList
    decide
  name_inLine := by
    show Text.InLine "first".toList
    decide
  name_strip := by
    show Text.strip "first".toList = "first".toList
    decide
  file_ne_nil := List.cons_ne_nil _ _
  file_inLine := by
    show Text.InLine "a.ts".toList
    decide
  line := ⟨1, rfl, by decide⟩
  instruction_nonneg := Int.le_refl 0
  column := ⟨column, frameAtColumn_start? column⟩

theorem frameAtColumn_not_hasShortColumn {column : Nat}
    (h : 10 ^ Text.longestNumeral ≤ column + 1) : ¬ (frameAtColumn column).HasShortColumn := by
  intro hshort
  have hwritable := hshort column (frameAtColumn_start? column)
  exact not_lt.mpr h ((Text.isWritable_iff (column + 1)).mp hwritable)

/-- A column that has as many digits as a numeral may have, counted from zero, has one more, counted
from one. The frames before it are lost too. -/
theorem captureStack?_longColumn :
    let stack := [frameAtColumn 0, frameAtColumn (10 ^ Text.longestNumeral - 1)]
    (∀ f ∈ stack, f.IsTraceable) ∧
      ¬ ∃ trace, captureStack? stack none = some trace ∧
        Frame.parseAll trace = .ok (stack.map CallFrame.named) := by
  intro stack
  have htraceable : ∀ f ∈ stack, f.IsTraceable := by
    intro f hf
    rcases List.mem_pair.mp hf with rfl | rfl
    · exact frameAtColumn_isTraceable _
    · exact frameAtColumn_isTraceable _
  have hlong := frameAtColumn_not_hasShortColumn (Nat.sub_le_iff_le_add.mp (le_refl _))
  have hnone : captureStack? stack none = none :=
    (captureStack?_eq htraceable).2 ⟨_, List.mem_pair.mpr (.inr rfl), hlong⟩
  refine ⟨htraceable, ?_⟩
  rintro ⟨trace, hcaptured, -⟩
  rw [hnone] at hcaptured
  cases hcaptured

end SourceStamp
