import SourceStamp.Proofs.Files.Utf8
import SourceStamp.Proofs.Files.Writing
import SourceStamp.Proofs.Stamping.Woven
import SourceStamp.Proofs.Text.Lines

/-!
# What stamping writes back

A file that is stamped is read with its line ends in universal form and written as it was read, so
stamping a file keeps its line ends only if they have that form.

- `FileSystem.stampFile_universal`: the content of a file after it was stamped.
-/

namespace SourceStamp

namespace FileSystem

variable {fs : FileSystem} {names : MonitoredNames} {p : Pathname} {path : List Text}
  {bytes : Bytes} {t : Text}

/-- What stamping a file that holds a text gives. -/
theorem stampFile_of_text {write : Bool} {source : Text} (hread : fs.read p = .ok (path, bytes))
    (htext : textOf .utf8 bytes = .ok source) :
    fs.stampFile names .utf8 write p =
      let stamped := stamp names source (some p.text)
      let notices := stampNotices names source (some p.text)
      .ok (if stamped.changed then
          ⟨stamped, notices ++ [.stamped stamped.edits.length p.text],
            if write then fs.putFile path (Encoding.utf8Bytes stamped.text) else fs⟩
        else ⟨stamped, notices, fs⟩) := by
  unfold stampFile
  rw [hread]
  show (textOf .utf8 bytes >>= _) = _
  rw [htext]
  show (if _ then _ else _) = _
  dsimp only
  split
  · cases write <;> rfl
  · rfl

/-- Stamping a file that can be read writes back the stamped text, if it changed. -/
theorem stampFile_eq (hread : fs.read p = .ok (path, bytes))
    (htext : Encoding.utf8.decode bytes = .ok t) :
    fs.stampFile names .utf8 true p =
      let stamped := stamp names (Text.universalNewlines t) (some p.text)
      let notices := stampNotices names (Text.universalNewlines t) (some p.text)
      .ok (if stamped.changed then
          ⟨stamped, notices ++ [.stamped stamped.edits.length p.text],
            fs.putFile path (Encoding.utf8Bytes stamped.text)⟩
        else ⟨stamped, notices, fs⟩) := by
  have hsource : textOf .utf8 bytes = .ok (Text.universalNewlines t) := by
    rw [textOf, htext]
  exact stampFile_of_text hread hsource

/-- The text of a file after its text was stamped in universal form. -/
def writtenBack (names : MonitoredNames) (path : Option Text) (t : Text) : Text :=
  let stamped := stamp names (Text.universalNewlines t) path
  if stamped.changed then stamped.text else t

/-- Without carriage returns the text that is written back is the stamped text. -/
theorem writtenBack_eq {names : MonitoredNames} {path : Option Text} {t : Text} (h : '\r' ∉ t) :
    writtenBack names path t = (stamp names t path).text := by
  rw [writtenBack, Text.universalNewlines_eq_self h]
  split
  · rfl
  · next hchanged => exact (stamp_text_of_not_changed (Bool.eq_false_iff.mpr hchanged)).symm

/-- A text that is written back holds no carriage return. -/
theorem return_not_mem_writtenBack {names : MonitoredNames} {path : Option Text} {t : Text}
    (h : (stamp names (Text.universalNewlines t) path).changed = true) :
    '\r' ∉ writtenBack names path t := by
  rw [writtenBack, if_pos h]
  intro hm
  exact Text.return_not_mem_universalNewlines t (mem_of_mem_stamp_text (by decide) hm)

/-- **Stamping a file**: a file whose bytes are a text in UTF-8 is stamped without an error.

- Its text is then that of `writtenBack`, and every other file has the bytes that it had.
- Without carriage returns that is the stamped form of the text that was there.
- Where the text in universal form changes, no carriage return is left, so the file does not hold
  the stamped form of its text if that has one. -/
theorem stampFile_universal (hread : fs.read p = .ok (path, bytes))
    (htext : Encoding.utf8.decode bytes = .ok t) :
    ∃ done after, fs.stampFile names .utf8 true p = .ok done ∧
      done.files.read p = .ok (path, after) ∧
      Encoding.utf8.decode after = .ok (writtenBack names (some p.text) t) ∧
      (∀ q found content, fs.read q = .ok (found, content) → found ≠ path →
        done.files.read q = .ok (found, content)) ∧
      ('\r' ∉ t → Encoding.utf8.decode after = .ok (stamp names t (some p.text)).text) ∧
      ((stamp names (Text.universalNewlines t) (some p.text)).changed = true →
        '\r' ∈ (stamp names t (some p.text)).text →
        Encoding.utf8.decode after ≠ .ok (stamp names t (some p.text)).text) := by
  have hplain : '\r' ∉ t → writtenBack names (some p.text) t = (stamp names t (some p.text)).text :=
    writtenBack_eq
  have hlost : (stamp names (Text.universalNewlines t) (some p.text)).changed = true →
      '\r' ∈ (stamp names t (some p.text)).text →
      writtenBack names (some p.text) t ≠ (stamp names t (some p.text)).text :=
    fun hchanged hm heq => return_not_mem_writtenBack hchanged (heq ▸ hm)
  rw [stampFile_eq hread htext]
  dsimp only
  by_cases hchanged : (stamp names (Text.universalNewlines t) (some p.text)).changed = true
  · -- the file is written
    rw [if_pos hchanged]
    have hdecode : Encoding.utf8.decode (Encoding.utf8Bytes
        (stamp names (Text.universalNewlines t) (some p.text)).text) =
          .ok (writtenBack names (some p.text) t) := by
      rw [Encoding.decode_utf8Bytes, writtenBack, if_pos hchanged]
    refine ⟨_, _, rfl, ?_, hdecode, ?_, ?_, ?_⟩
    · rw [read_putFile hread hread, if_pos rfl]
    · intro q found content hq hne
      rw [read_putFile hread hq, if_neg hne]
    · intro h
      rw [hdecode, hplain h]
    · intro hchanged hm heq
      rw [hdecode] at heq
      exact hlost hchanged hm (Except.ok.inj heq)
  · -- the file is left alone
    rw [if_neg hchanged]
    have hdecode : Encoding.utf8.decode bytes = .ok (writtenBack names (some p.text) t) := by
      rw [htext, writtenBack, if_neg hchanged]
    refine ⟨_, bytes, rfl, hread, hdecode, fun _ _ _ hq _ => hq, ?_, ?_⟩
    · intro h
      rw [hdecode, hplain h]
    · exact fun h => absurd h hchanged

/-- A carriage return at the end of a line is lost when the file is stamped. -/
theorem stampFile_loses_return :
    ∃ done after,
      ((FileSystem.empty []).putFile ["a".toList]
          (Encoding.utf8Bytes "use()\r\n".toList)).stampFile .soleHook .utf8 true
        (Pathname.ofText "a".toList) = .ok done ∧
      done.files.read (Pathname.ofText "a".toList) = .ok (["a".toList], after) ∧
      Encoding.utf8.decode after ≠
        .ok (stamp .soleHook "use()\r\n".toList (some "a".toList)).text := by
  have hread : ((FileSystem.empty []).putFile ["a".toList]
      (Encoding.utf8Bytes "use()\r\n".toList)).read (Pathname.ofText "a".toList) =
        .ok (["a".toList], Encoding.utf8Bytes "use()\r\n".toList) :=
    read_eq_ok_iff.mpr ⟨by decide +kernel, rfl⟩
  obtain ⟨done, after, hdone, hafter, -, -, -, hlost⟩ :=
    @stampFile_universal _ .soleHook _ _ _ _ hread (Encoding.decode_utf8Bytes _)
  have hplan : ∀ rest ∈ ["\n".toList, "\r\n".toList],
      plan .soleHook ("use()".toList ++ rest) (some "a".toList) =
        [.replace 4 4 (Stamp.object "a".toList 1)] := by
    simp only [plan_eq, MonitoredCall.findAll_eq, Occurrence.isCall, classify_eq,
      MonitoredCall.edit?, ArgumentList.find, Scanner.closingParen_eq, Scanner.visits_eq,
      Stamp.editFor, ArgumentList.layout, ArgumentLayout.ofText]
    decide +kernel
  refine ⟨done, after, hdone, hafter, hlost ?_ ?_⟩
  · show (stamp .soleHook ("use()".toList ++ "\n".toList) (some "a".toList)).changed = true
    rw [stamp, hplan _ (by decide), if_neg (by decide +kernel), Edit.applyAll_eq, Edit.ordered,
      List.mergeSort_singleton]
    decide +kernel
  · show '\r' ∈ (stamp .soleHook ("use()".toList ++ "\r\n".toList) (some "a".toList)).text
    rw [stamp, hplan _ (by decide), if_neg (by decide +kernel), Edit.applyAll_eq, Edit.ordered,
      List.mergeSort_singleton]
    decide +kernel

end FileSystem
end SourceStamp
