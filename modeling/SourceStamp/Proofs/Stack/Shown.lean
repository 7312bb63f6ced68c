import SourceStamp.Proofs.Stack.Lines
import SourceStamp.Stack.Caller

/-!
# Shown traces

The trace that an entry shows is a trace again: it has the user's frames of the original one, in
their order, and no others.

- `FramePolicy.userFrames_shown`: the user's frames of a shown trace.
- `FramePolicy.caller_shown`, `FramePolicy.trace_shown`: skipping frames of a shown trace is
  skipping that many more of the original one.
- `FramePolicy.trace_resolves`: a shown trace resolves like the original.
-/

namespace SourceStamp
namespace FramePolicy

open Text (InLine isBlank)

variable {f : FramePolicy} {t shown : Text} {frames : List (Text × Frame)}

/-- No line of the text ends in blanks. -/
def EndsTightly (t : Text) : Prop := ∀ l ∈ Text.lines t, Text.dropEndWhile isBlank l = l

/-! ## User frames -/

theorem userFrames_eq_ok_iff :
    f.userFrames t = .ok frames ↔ ∃ ls, Frame.parseLines t = .ok ls ∧
      frames = ls.filter fun l => !f.isInternal l.2.filePath := by
  rw [userFrames]
  cases Frame.parseLines t with
  | error => simp [Except.map]
  | ok ls => simp [Except.map, eq_comm]

/-- A user frame stands in a line of its own and is not internal. -/
theorem of_mem_userFrames (h : f.userFrames t = .ok frames) {l : Text × Frame} (hl : l ∈ frames) :
    l.1 ∈ Text.lines t ∧ Frame.parse l.1 = .ok (some l.2) ∧ f.isInternal l.2.filePath = false := by
  obtain ⟨ls, hls, rfl⟩ := userFrames_eq_ok_iff.mp h
  obtain ⟨hmem, huser⟩ := List.mem_filter.mp hl
  obtain ⟨hline, hparse⟩ := Frame.parse_of_mem_parseLines hls hmem
  exact ⟨hline, hparse, by simpa using huser⟩

/-- The line of a user frame as a shown trace has it. -/
def stripped (l : Text × Frame) : Text × Frame := (Text.strip l.1, l.2)

theorem stripped_of_mem_userFrames (htight : EndsTightly t) (h : f.userFrames t = .ok frames)
    {l : Text × Frame} (hl : l ∈ frames) :
    InLine (stripped l).1 ∧ (stripped l).1 ≠ [] ∧
      Frame.parse (stripped l).1 = .ok (some (stripped l).2) := by
  obtain ⟨hline, hparse, -⟩ := of_mem_userFrames h hl
  have hsame : Frame.parse (Text.strip l.1) = .ok (some l.2) :=
    (Frame.parse_strip (Text.inLine_of_mem_lines _ hline) (htight _ hline)).trans hparse
  refine ⟨?_, ?_, hsame⟩
  · intro c hc
    exact Text.inLine_of_mem_lines _ hline c (Text.mem_of_mem_strip hc)
  · intro hnil
    -- the empty line names no frame
    rw [show Text.strip l.1 = [] from hnil] at hsame
    cases hsame

section Shown

variable (htight : EndsTightly t) (h : f.userFrames t = .ok frames) {k : Nat}
  (hshown : f.trace k t = .ok shown)

include h hshown

theorem eq_of_trace :
    shown = Text.join ['\n'] ((frames.drop k).map fun l => (stripped l).1) := by
  rw [trace, h] at hshown
  exact (Except.ok.inj hshown).symm

include htight

/-- A shown trace has the user frames that were left, each in its line without blanks around it. -/
theorem userFrames_shown : f.userFrames shown = .ok ((frames.drop k).map stripped) := by
  let ls : List (Text × Option Frame) := (frames.drop k).map fun l => ((stripped l).1, some l.2)
  have hmem : ∀ l ∈ frames.drop k, l ∈ frames := fun l hl => List.mem_of_mem_drop hl
  have hjoin : shown = Text.join ['\n'] (ls.map (·.1)) := by
    rw [eq_of_trace h hshown, List.map_map]
    rfl
  have hread : Frame.parseLines shown = .ok ((frames.drop k).map stripped) := by
    have hnamed : ls.filterMap Frame.named? = (frames.drop k).map stripped := by
      rw [List.filterMap_map]
      exact congrFun (List.filterMap_eq_map (f := stripped)) (frames.drop k)
    rw [hjoin, Frame.parseLines_join, hnamed]
    · intro l hl
      obtain ⟨l, hleft, rfl⟩ := List.mem_map.mp hl
      obtain ⟨hline, hne, -⟩ := stripped_of_mem_userFrames htight h (hmem l hleft)
      exact ⟨hline, hne⟩
    · intro l hl
      obtain ⟨l, hleft, rfl⟩ := List.mem_map.mp hl
      exact (stripped_of_mem_userFrames htight h (hmem l hleft)).2.2
  refine userFrames_eq_ok_iff.mpr ⟨_, hread, (List.filter_eq_self.mpr ?_).symm⟩
  intro l hl
  obtain ⟨l, hleft, rfl⟩ := List.mem_map.mp hl
  have huser : f.isInternal l.2.filePath = false := (of_mem_userFrames h (hmem l hleft)).2.2
  show (!f.isInternal l.2.filePath) = true
  rw [huser]
  rfl

theorem caller_shown (j : Nat) : f.caller j shown = f.caller (k + j : Nat) t := by
  rw [caller, caller, userFrames_shown htight h hshown, h]
  show Except.ok _ = Except.ok _
  simp only [Int.toNat_natCast, List.getElem?_map, List.getElem?_drop]
  cases frames[k + j]? with
  | none => rfl
  | some l => rfl

theorem trace_shown (j : Nat) : f.trace j shown = f.trace (k + j : Nat) t := by
  have hstrip : ∀ l ∈ frames.drop (k + j), Text.strip (stripped l).1 = Text.strip l.1 :=
    fun l _ => Text.strip_strip l.1
  rw [trace, trace, userFrames_shown htight h hshown, h]
  show Except.ok _ = Except.ok _
  simp only [Int.toNat_natCast, ← List.map_drop, List.drop_drop, List.map_map]
  exact congrArg (fun ls => Except.ok (Text.join ['\n'] ls)) (List.map_congr_left hstrip)

end Shown

/-- **A shown trace resolves like the original**: in a text of which every line is readable and ends
in no blanks, skipping some user frames, showing the rest as a trace, and skipping some of that
comes to the same caller, and shows the same trace, as skipping all of them at once. -/
theorem trace_resolves (f : FramePolicy) {t : Text} (htight : EndsTightly t)
    (hread : ∀ l ∈ Text.lines t, ∃ g, Frame.parse l = .ok g) (k j : Nat) :
    ∃ shown location rest, f.trace k t = .ok shown ∧
      f.caller j shown = .ok location ∧ f.caller (k + j : Nat) t = .ok location ∧
      f.trace j shown = .ok rest ∧ f.trace (k + j : Nat) t = .ok rest := by
  obtain ⟨ls, hls⟩ := Frame.exists_parseLines hread
  have h : f.userFrames t = .ok _ := userFrames_eq_ok_iff.mpr ⟨ls, hls, rfl⟩
  obtain ⟨shown, hshown⟩ : ∃ shown, f.trace k t = .ok shown := ⟨_, by rw [trace, h]; rfl⟩
  obtain ⟨location, hlocation⟩ : ∃ location, f.caller (k + j : Nat) t = .ok location :=
    ⟨_, by rw [caller, h]; rfl⟩
  obtain ⟨rest, hrest⟩ : ∃ rest, f.trace (k + j : Nat) t = .ok rest := ⟨_, by rw [trace, h]; rfl⟩
  exact ⟨shown, location, rest, hshown, (caller_shown htight h hshown j).trans hlocation,
    hlocation, (trace_shown htight h hshown j).trans hrest, hrest⟩

/-- The lines of a trace with frames in all three forms, the first of them internal. -/
def mixedLines : List Text :=
  ["Error".toList, "  at f (node_modules/a:1:2)".toList, "  at g (b.ts:3:4)".toList,
    "  h@c.ts:5:6".toList, "d.ts:7:8".toList]

theorem trace_resolves_mixedLines :
    let t := Text.join ['\n'] mixedLines
    let f := standard .sample
    ∃ shown location rest, f.trace 1 t = .ok shown ∧
      f.caller 1 shown = .ok location ∧ f.caller 2 t = .ok location ∧
      f.trace 1 shown = .ok rest ∧ f.trace 2 t = .ok rest := by
  intro t f
  have hlines : Text.lines t = mixedLines := Text.lines_join (by decide)
  have htight : EndsTightly t := by
    rw [EndsTightly, hlines]
    decide
  have hread : ∀ l ∈ Text.lines t, ∃ g, Frame.parse l = .ok g := by
    rw [hlines]
    simp only [mixedLines, List.forall_mem_cons]
    exact ⟨⟨_, rfl⟩, ⟨_, rfl⟩, ⟨_, rfl⟩, ⟨_, rfl⟩, ⟨_, rfl⟩, fun l hl => absurd hl List.not_mem_nil⟩
  exact trace_resolves f htight hread 1 1

end FramePolicy
end SourceStamp
