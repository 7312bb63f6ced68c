import Mathlib.Algebra.Group.Int.Defs
import SourceStamp.Call.Stamp
import SourceStamp.Proofs.Log.Attributed
import SourceStamp.Proofs.Stack.Readable
import SourceStamp.Proofs.Value.ObjectLiteral

/-!
# Stamps read back

What a stamp says as source text is what an entry shows when the stamped call runs.

- `Stamp.read?_object`: the fields that the literal of a stamp denotes.
- `StampReading.ofMetadata_stamp`: what they tell.
- `Stamp.object_arrives`: the place in a stamp arrives in the entry, if the stamp can be written.
-/

namespace SourceStamp

/-! ## From source text to metadata -/

namespace Stamp

/-- The fields of a stamp: the place that it names. -/
def placeFields (file : Text) (line : Int) : Fields :=
  [("fileName".toList, .text file), ("lineNumber".toList, .int line)]

/-- The metadata that are a stamp and nothing else. -/
def fields (file : Text) (line : Int) : Fields := [(sourceKey, .object (placeFields file line))]

open ObjectLiteral (IsName value? members? read? value?_text value?_int members?_of_comma
  members?_of_brace)

/-- The tokens of a stamp. -/
theorem object_eq (file : Text) (n : Nat) :
    object file n =
      '{' :: ' ' :: ("__source".toList ++ ':' :: ' ' :: '{' :: ' ' :: ("fileName".toList ++
        ':' :: ' ' :: (Text.stringLiteral file ++ ',' :: ' ' :: ("lineNumber".toList ++
          ':' :: ' ' :: (Text.ofNat n ++ [' ', '}', ' ', '}']))))) := by
  have hopening : "\x7b ".toList ++ "__source: \x7b fileName: ".toList =
      '{' :: ' ' :: ("__source".toList ++ ':' :: ' ' :: '{' :: ' ' :: ("fileName".toList ++
        [':', ' '])) := rfl
  have hbetween : ", lineNumber: ".toList = ',' :: ' ' :: ("lineNumber".toList ++ [':', ' ']) := rfl
  have hclosing : " \x7d".toList ++ " \x7d".toList = [' ', '}', ' ', '}'] := rfl
  have hline : Text.ofInt n = Text.ofNat n := by
    show Text.ofInt (.ofNat n) = Text.ofNat n
    rw [Text.ofInt]
  calc
    object file n = ("\x7b ".toList ++ "__source: \x7b fileName: ".toList) ++
        (Text.stringLiteral file ++ (", lineNumber: ".toList ++
          (Text.ofNat n ++ (" \x7d".toList ++ " \x7d".toList)))) := by
      unfold object property
      rw [hline]
      simp only [List.append_assoc]
    _ = _ := by
      rw [hopening, hbetween, hclosing]
      simp only [List.append_assoc, List.cons_append, List.nil_append]

/-- The literal of a stamp is an object literal, and these are its fields. -/
theorem read?_object (file : Text) {line : Int} (hnonneg : 0 ≤ line) :
    read? (object file line) = some (fields file line) := by
  obtain ⟨n, rfl⟩ := Int.eq_ofNat_of_zero_le hnonneg
  -- the reader goes as deep as the text is long, and six levels are enough
  obtain ⟨b, hb⟩ : ∃ b, (object file n).length = b + 6 := by
    refine ⟨(object file n).length - 6, (Nat.sub_add_cancel ?_).symm⟩
    rw [object_eq]
    simp only [List.length_cons, List.length_append]
    omega
  have hsource : IsName "__source".toList := ⟨by decide, rfl⟩
  have hfile : IsName "fileName".toList := ⟨by decide, rfl⟩
  have hline : IsName "lineNumber".toList := ⟨by decide, rfl⟩
  have hplace : members? (b + 3) [] (' ' :: ("fileName".toList ++ ':' :: ' ' ::
      (Text.stringLiteral file ++ ',' :: ' ' :: ("lineNumber".toList ++ ':' :: ' ' ::
        (Text.ofNat n ++ [' ', '}', ' ', '}']))))) =
      some (placeFields file n, [' ', '}']) := by
    rw [members?_of_comma hfile (value?_text (b + 1) file _) rfl]
    exact members?_of_brace hline (value?_int b n rfl) rfl
  have hstamp : value? (b + 4) (' ' :: '{' :: ' ' :: ("fileName".toList ++ ':' :: ' ' ::
      (Text.stringLiteral file ++ ',' :: ' ' :: ("lineNumber".toList ++ ':' :: ' ' ::
        (Text.ofNat n ++ [' ', '}', ' ', '}']))))) =
      some (.object (placeFields file n), [' ', '}']) := by
    rw [value?]
    show (members? (b + 3) [] _).map _ = _
    rw [hplace]
    rfl
  have hwhole : value? (b + 6) (object file n) = some (.object (fields file n), []) := by
    rw [object_eq, value?]
    show (members? (b + 5) [] _).map _ = _
    rw [members?_of_brace hsource hstamp rfl]
    rfl
  rw [read?, hb, hwhole]
  rfl

/-- Different places have different literals. -/
theorem object_injective {file file' : Text} {line line' : Int} (hnonneg : 0 ≤ line)
    (hnonneg' : 0 ≤ line') (h : object file line = object file' line') :
    file = file' ∧ line = line' := by
  have hfields : some (fields file line) = some (fields file' line') := by
    rw [← read?_object file hnonneg, ← read?_object file' hnonneg', h]
  simpa [fields, placeFields] using hfields

theorem eq_object_of_object? {file literal : Text} {line : Int}
    (h : object? file line = .ok literal) : literal = object file line := by
  rw [object?] at h
  split at h
  · exact (Except.ok.inj h).symm
  · cases h

end Stamp

/-! ## From metadata to an entry -/

namespace StampReading

variable {file : Text} (hfile : file ≠ [])

include hfile

theorem isComplete_place (line : Int) : isComplete ⟨some file, some line, none⟩ = true := by
  obtain ⟨c, rest, rfl⟩ := List.exists_cons_of_ne_nil hfile
  rfl

/-- What a stamp tells when it is read from metadata. -/
theorem ofMetadata_stamp {metadata : Fields} {line : Int}
    (h : metadata.get? sourceKey = some (.object (Stamp.placeFields file line))) :
    ofMetadata metadata = .ok (some ⟨some file, some line, none⟩) := by
  obtain ⟨c, rest, rfl⟩ := List.exists_cons_of_ne_nil hfile
  rw [ofMetadata, h]
  rfl

end StampReading

/-- The component of a context leaves the place of a location. -/
theorem SourceLocation.withComponent_eq (l : SourceLocation) (c : Context) :
    l.withComponent c =
      { l with componentName := (present? c.componentName).or l.componentName } := by
  rw [withComponent]
  cases present? c.componentName with
  | none => rfl
  | some => rfl

/-- **A stamp arrives**: the literal of a stamp can be written exactly if its line can. Then it is
an object literal with the path and line that it was made of, so no two stamps have the same one. As
metadata it is a complete stamp, and where source paths are shown, the entry of a call with it has
that path and line. No stack is captured for them: the only capture is the one for a trace that is
asked for, and only that trace can keep the entry back. -/
theorem Stamp.object_arrives (file : Text) {line : Int} (hline : 1 ≤ line) :
    (Text.isWritable line = true →
      ∃ literal, object? file line = .ok literal ∧
        ObjectLiteral.read? literal = some (fields file line)) ∧
    (Text.isWritable line = false → object? file line = .error ⟨⟩) ∧
    (file ≠ [] →
      StampReading.ofMetadata (fields file line) = .ok (some ⟨some file, some line, none⟩) ∧
      StampReading.isComplete ⟨some file, some line, none⟩ ∧
      ∀ s r skip level message data (c : Context), s.includesSourcePaths = true →
        c.metadata.get? sourceKey = (fields file line).get? sourceKey →
        ∃ entry : Option Text → Entry,
          (∀ t, (entry t).location.filePath = some file ∧ (entry t).location.line = some line ∧
            (entry t).location.provenance = some .injected) ∧
          ∀ captures, (Entry.create s r skip level message data c).run captures =
            if level = .error ∧ s.stackTraces then
              ((r.trace skip).map fun t => entry (some t),
                ⟨captures.count + 1, captures.notices ++ r.source.notices⟩)
            else (.ok (entry none), captures)) ∧
    ∀ file' line' literal, 1 ≤ line' → object? file line = .ok literal →
      object? file' line' = .ok literal → file = file' ∧ line = line' := by
  have hnonneg : 0 ≤ line := Int.le_trans (by decide) hline
  refine ⟨fun hwritable => ⟨_, if_pos hwritable, read?_object file hnonneg⟩,
    fun hlong => if_neg (Bool.eq_false_iff.mp hlong), ?_, ?_⟩
  · intro hfile
    have hcomplete := StampReading.isComplete_place hfile line
    refine ⟨StampReading.ofMetadata_stamp hfile rfl, hcomplete, ?_⟩
    intro s r skip level message data c hpaths hstamp
    have hreading := StampReading.ofMetadata_stamp hfile hstamp
    have hlocation := r.locateEntry_of_isComplete (s := s) skip hcomplete
    rw [if_pos hpaths] at hlocation
    refine ⟨c.entry level message data
      (SourceLocation.empty.withStamp ⟨some file, some line, none⟩),
      fun t => ?_, Entry.run_create hreading hlocation⟩
    obtain ⟨first, rest, rfl⟩ := List.exists_cons_of_ne_nil hfile
    rw [Context.entry, SourceLocation.withComponent_eq]
    exact ⟨rfl, rfl, rfl⟩
  · intro file' line' literal hline' hliteral hliteral'
    exact object_injective hnonneg (Int.le_trans (by decide) hline')
      ((eq_object_of_object? hliteral).symm.trans (eq_object_of_object? hliteral'))

/-- A path with a quote, a backslash, a control character and one above the basic plane. -/
def Stamp.oddPath : Text := ['\x22', '\x5c', '\n', '\x7f', Char.ofNat 0x1F600]

theorem Stamp.object_arrives_oddPath :
    (∃ literal, object? oddPath 7 = .ok literal ∧
        ObjectLiteral.read? literal = some (fields oddPath 7)) ∧
      StampReading.ofMetadata (fields oddPath 7) = .ok (some ⟨some oddPath, some 7, none⟩) ∧
      ∃ e, (Entry.create (.defaults .development) ⟨.failing [], .standard .sample⟩ 0 .warn [] .null
            (Context.ofMetadata (fields oddPath 7))).run .none = (.ok e, .none) ∧
        e.location.filePath = some oddPath ∧ e.location.line = some 7 := by
  obtain ⟨hread, -, harrives, -⟩ := Stamp.object_arrives oddPath (show 1 ≤ 7 by decide)
  obtain ⟨hreading, -, hentry⟩ := harrives (by decide)
  obtain ⟨entry, hplace, hrun⟩ := hentry (.defaults .development)
    ⟨.failing [], .standard .sample⟩ 0 .warn [] .null (Context.ofMetadata (fields oddPath 7)) rfl
    rfl
  obtain ⟨hpath, hline, -⟩ := hplace none
  exact ⟨hread (by decide), hreading, entry none, hrun .none, hpath, hline⟩

/-- The first line that is too long to be written leaves no literal. And an error with a stamp has
no entry where its trace is asked for and cannot be told. -/
theorem Stamp.object_lost :
    ((1 : Int) ≤ 10 ^ Text.longestNumeral ∧
        object? "a".toList (10 ^ Text.longestNumeral) = .error ⟨⟩) ∧
      (Settings.defaults .development).includesSourcePaths = true ∧
      ((Entry.create (.defaults .development)
          ⟨.given (some (Frame.lineWith FramePolicy.overlong)), .standard .sample⟩ 0 .error
          "m".toList .null (Context.ofMetadata (fields "a".toList 1))).run .none).1 = .error ⟨⟩ := by
  refine ⟨⟨Int.pow_pos (by decide), if_neg ?_⟩, rfl, ?_⟩
  · have hcast : (10 : Int) ^ Text.longestNumeral = (10 ^ Text.longestNumeral : Nat) := by
      push_cast
      rfl
    rw [hcast, Text.isWritable_iff]
    exact Nat.lt_irrefl _
  · have htrace := FramePolicy.reads_trace (.standard .sample) 0
      (Frame.lineWith FramePolicy.overlong)
    have hfail : StackReader.trace
        ⟨.given (some (Frame.lineWith FramePolicy.overlong)), .standard .sample⟩ 0 = .error ⟨⟩ :=
      htrace.error FramePolicy.not_hasShortNumerals_overlong
    have hreading : StampReading.ofMetadata (Context.ofMetadata (fields "a".toList 1)).metadata =
        .ok (some ⟨some "a".toList, some 1, none⟩) := rfl
    rw [Entry.run_create hreading (StackReader.locateEntry_of_isComplete _ 0 rfl), hfail]
    rfl

end SourceStamp
