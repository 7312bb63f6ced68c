import SourceStamp.Proofs.Log.Attributed
import SourceStamp.Proofs.Stack.Readable
import SourceStamp.Proofs.Text.Numeral

/-!
# Malformed stamps

Metadata may hold anything where a stamp is looked for. Most of what is no stamp is passed over:
only a line or column that looks like a number and has no value is an error.

- `StampReading.IsSound`: metadata without such a line or column.
- `StampReading.told`: what the stamp in metadata tells.
- `StampReading.reads_ofMetadata`: sound metadata are read, and no others.
- `StampReading.ofMetadata_and_create`: which metadata lead to an entry.
-/

namespace SourceStamp

namespace StampReading

/-! ## Numbers -/

/-- A field is no text that looks like a number and has no value. -/
def IsSoundNumber : Option Value → Prop
  | some (.text t) => Text.LooksNumeric t → Text.HasValue t
  | _ => True

instance : (field : Option Value) → Decidable (IsSoundNumber field)
  | some (.text t) => inferInstanceAs (Decidable (Text.LooksNumeric t → Text.HasValue t))
  | none | some .null | some (.bool _) | some (.int _) | some (.decimal _ _) | some (.list _)
  | some (.object _) => isTrue trivial

/-- The number that a field tells. -/
def toldNumber : Option Value → Option Int
  | some (.int n) => some n
  | some (.text t) => if Text.LooksNumeric t then some (Frame.value (Text.strip t)) else none
  | _ => none

theorem number?_text (t : Text) :
    number? (some (.text t)) =
      if Text.LooksNumeric t then (Text.integer? t).elim (.error ⟨⟩) fun n => .ok (some n)
      else .ok none := by
  have hiff : (!(Text.strip t).isEmpty && (Text.strip t).all Text.isDigitLike) = true ↔
      Text.LooksNumeric t := by
    simp [Text.LooksNumeric]
  rw [number?]
  simp only [hiff]
  split
  · cases Text.integer? t <;> rfl
  · rfl

/-- A field is read exactly when it is sound. -/
theorem reads_number? (field : Option Value) :
    Frame.Reads (number? field) (IsSoundNumber field) (toldNumber field) := by
  cases field with
  | none => exact .pure trivial
  | some value =>
    cases value with
    | text t =>
      rw [number?_text, toldNumber, IsSoundNumber]
      by_cases hlooks : Text.LooksNumeric t
      · rw [if_pos hlooks, if_pos hlooks, Text.integer?_of_looksNumeric hlooks]
        have hiff := (forall_prop_of_true (q := fun _ => Text.HasValue t) hlooks).symm
        refine Frame.Reads.congr ⟨fun hvalue => ?_, fun hvalue => ?_⟩ hiff
        · rw [if_pos hvalue]
          rfl
        · rw [if_neg hvalue]
          rfl
      · rw [if_neg hlooks, if_neg hlooks]
        exact .pure fun h => absurd h hlooks
    | _ => exact .pure trivial

/-! ## Stamps -/

/-- The line that the fields of a stamp name. -/
def lineField (fields : Fields) : Option Value := field? fields "lineNumber" "line"

/-- The column that they name. -/
def columnField (fields : Fields) : Option Value := field? fields "columnNumber" "column"

/-- What the fields of a stamp tell. -/
def toldByFields (fields : Fields) : Option StampReading :=
  let fileName := present? ((field? fields "fileName" "file").bind Value.text?)
  let line := toldNumber (lineField fields)
  if fileName.isNone && line.isNone then none
  else some ⟨fileName, line, toldNumber (columnField fields)⟩

theorem reads_ofFields (fields : Fields) :
    Frame.Reads (ofFields fields)
      (IsSoundNumber (lineField fields) ∧ IsSoundNumber (columnField fields))
      (toldByFields fields) :=
  (reads_number? (lineField fields)).bind ((reads_number? (columnField fields)).bind_pure _)

/-- No line or column of a stamp in metadata looks like a number without being one. -/
def IsSound (metadata : Fields) : Prop :=
  ∀ fields ∈ (metadata.get? sourceKey).bind Value.fields?,
    IsSoundNumber (lineField fields) ∧ IsSoundNumber (columnField fields)

instance (metadata : Fields) : Decidable (IsSound metadata) :=
  inferInstanceAs (Decidable (∀ fields ∈ (metadata.get? sourceKey).bind Value.fields?,
    IsSoundNumber (lineField fields) ∧ IsSoundNumber (columnField fields)))

/-- What the stamp in metadata tells. -/
def told (metadata : Fields) : Option StampReading :=
  ((metadata.get? sourceKey).bind Value.fields?).bind toldByFields

/-- Metadata are read exactly when they are sound. -/
theorem reads_ofMetadata (metadata : Fields) :
    Frame.Reads (ofMetadata metadata) (IsSound metadata) (told metadata) := by
  rw [ofMetadata, told, IsSound]
  cases (metadata.get? sourceKey).bind Value.fields? with
  | none => exact .pure fun fields hfields => by cases hfields
  | some fields =>
    refine (reads_ofFields fields).congr ⟨?_, fun h => h fields rfl⟩
    rintro hsound fields' ⟨⟩
    exact hsound

/-! ## Entries -/

/-- **What metadata lead to.** Sound metadata are read, whatever values they hold, and every call
with them on a readable stack leads to an entry. All others are an error, for the reading and for
every call. -/
theorem ofMetadata_and_create (metadata : Fields) :
    (IsSound metadata → ofMetadata metadata = .ok (told metadata) ∧
      ∀ s r skip level message data c captures, c.metadata = metadata → StackReader.IsReadable r →
        ∃ e, ((Entry.create s r skip level message data c).run captures).1 = .ok e) ∧
    (¬ IsSound metadata → ofMetadata metadata = .error ⟨⟩ ∧
      ∀ s r skip level message data c captures, c.metadata = metadata →
        ((Entry.create s r skip level message data c).run captures).1 = .error ⟨⟩) := by
  have hreads := reads_ofMetadata metadata
  refine ⟨fun hsound => ⟨hreads.ok hsound, ?_⟩, fun hunsound => ⟨hreads.error hunsound, ?_⟩⟩
  · rintro s r skip level message data c captures rfl hstack
    exact Entry.exists_create_of_isReadable (hreads.ok hsound) hstack captures
  · rintro s r skip level message data c captures rfl
    rw [Entry.create_yields, Entry.told, hreads.error hunsound]
    rfl

/-- Metadata with a stamp of which the line is given as text. -/
def withLine (line : Text) : Fields := [(sourceKey, .object [("line".toList, .text line)])]

/-- A call in a context with these metadata, on an empty stack. -/
def call (metadata : Fields) : Capturing Entry :=
  Entry.create (.defaults .development) ⟨.given none, .standard .sample⟩ 0 .error "m".toList .null
    (.ofMetadata metadata)

/-- A digit is a line, another text is none, and a superscript looks like a line. -/
theorem ofMetadata_and_create_superscript :
    (ofMetadata (withLine [' ', '2', '\n']) = .ok (some ⟨none, some 2, none⟩) ∧
        ∃ e, ((call (withLine [' ', '2', '\n'])).run .none).1 = .ok e) ∧
      ofMetadata (withLine ['v', '2']) = .ok none ∧
      (ofMetadata (withLine ['²']) = .error ⟨⟩ ∧
        ((call (withLine ['²'])).run .none).1 = .error ⟨⟩) := by
  obtain ⟨hdigit, hcall⟩ := (ofMetadata_and_create (withLine [' ', '2', '\n'])).1 (by decide)
  obtain ⟨hother, -⟩ := (ofMetadata_and_create (withLine ['v', '2'])).1 (by decide)
  obtain ⟨hsuperscript, hcall'⟩ := (ofMetadata_and_create (withLine ['²'])).2 (by decide)
  have hstack : StackReader.IsReadable ⟨.given none, .standard .sample⟩ := ⟨[], rfl⟩
  exact ⟨⟨hdigit.trans (by decide), hcall _ _ _ _ _ _ _ _ rfl hstack⟩, hother.trans (by decide),
    hsuperscript, hcall' _ _ _ _ _ _ _ _ rfl⟩

end StampReading
end SourceStamp
