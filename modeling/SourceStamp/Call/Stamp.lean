import SourceStamp.Call.ArgumentList
import SourceStamp.Call.Occurrence
import SourceStamp.Edit
import SourceStamp.Text.Numeral

/-!
# Stamps

A stamp is the object that tells a monitored call where it stands in its source:
`{ __source: { fileName: "app/page", lineNumber: 5 } }`.

- `Stamp.property`, `Stamp.object`: its text, as a property and as a whole object, for lines that
  can be written; `Stamp.object?` fails at those that are too long.
- `Stamp.editFor`: where a call takes it; `Stamp.editFor?` fails where the stamp cannot be written.
- `Stamp.EditForm`: what its edit can be, and `Stamp.exists_editForm`: nothing else.

| kind    | no arguments      | an object argument   | other arguments            |
|---------|-------------------|----------------------|----------------------------|
| hook    | replaced by it    | the property joins   | added at the end           |
| wrapper | left alone        | added to a single argument | added to a single argument |
| method  | left alone        | third argument       | third argument             |

A wrapper with two or more arguments and a method with three or more are left alone.
-/

namespace SourceStamp
namespace Stamp

/-- The stamp as a property, without braces around it, if its line can be written
(`source_property`). -/
def property (file : Text) (line : Int) : Text :=
  "__source: \x7b fileName: ".toList ++ Text.stringLiteral file ++ ", lineNumber: ".toList ++
    Text.ofInt line ++ " \x7d".toList

/-- The stamp as an object literal, if its line can be written. -/
def object (file : Text) (line : Int) : Text :=
  "\x7b ".toList ++ property file line ++ " \x7d".toList

/-- The stamp as an object literal, unless its line is too long to be written (`source_object`). -/
def object? (file : Text) (line : Int) : Except UnreadableNumeral Text :=
  if Text.isWritable line then .ok (object file line) else .error ⟨⟩

/-- What fills the place of an argument that a method call lacks (`PLACEHOLDER_ARGUMENT`). -/
def placeholder : Text := "undefined".toList

/-- The number of arguments of a stamped method call (`METHOD_ARITY`). -/
def methodArity : Nat := 3

/-- What separates an addition from what stands before it, which may end with a comma. -/
def separator (afterComma : Bool) : Text := if afterComma then " ".toList else ", ".toList

/-- Adds arguments at the end of a list (`_append_arguments`). -/
def append (close : Int) (layout : ArgumentLayout) (arguments : List Text) : Edit :=
  .insert close (separator layout.trailing ++ Text.join ", ".toList arguments)

/-- The edit for a hook: the stamp is its only argument, joins its last object argument, or comes
last (`_plan_hook`). -/
def hookEdit (openParen close : Int) (layout : ArgumentLayout) (file : Text) (line : Int) : Edit :=
  if layout.isEmpty then .replace (openParen + 1) close (object file line)
  else
    match layout.lastObject? with
    | none => append close layout [object file line]
    | some o =>
      -- an empty object gives way as a whole, blanks and comments in it included
      if o.isEmpty then .replace o.openBrace (o.closeBrace + 1) (object file line)
      else .insert o.contentEnd (separator o.endsWithComma ++ property file line)

/-- The edit for a wrapper: the stamp comes after a single argument (`_plan_wrapper`). -/
def wrapperEdit? (close : Int) (layout : ArgumentLayout) (file : Text) (line : Int) : Option Edit :=
  if layout.count = 1 then some (append close layout [object file line]) else none

/-- The edit for a method: the stamp becomes its third argument (`_plan_method`). -/
def methodEdit? (close : Int) (layout : ArgumentLayout) (file : Text) (line : Int) : Option Edit :=
  if layout.isEmpty ∨ methodArity ≤ layout.count then none
  else
    -- the arguments between the given ones and the third are left undefined
    let padding := List.replicate (methodArity - 1 - layout.count) placeholder
    some (append close layout (padding ++ [object file line]))

/-- The edit that stamps a call with the given argument list, if it takes a stamp. A list without
an end takes none. -/
def editFor (kind : CalleeKind) (list : ArgumentList) (file : Text) (line : Int) : Option Edit :=
  match list.closeParen with
  | none => none
  | some close =>
    match kind with
    | .hook => some (hookEdit list.openParen close list.layout file line)
    | .wrapper => wrapperEdit? close list.layout file line
    | .method => methodEdit? close list.layout file line

/-- The edit that stamps a call, unless the stamp has a line that is too long to be written
(`plan_edits`). A call that takes no stamp does not fail. -/
def editFor? (kind : CalleeKind) (list : ArgumentList) (file : Text) (line : Int) :
    Except UnreadableNumeral (Option Edit) :=
  match editFor kind list file line with
  | none => .ok none
  | some e => if Text.isWritable line then .ok (some e) else .error ⟨⟩

theorem editFor?_of_isWritable {line : Int} (h : Text.isWritable line = true) (kind : CalleeKind)
    (list : ArgumentList) (file : Text) :
    editFor? kind list file line = .ok (editFor kind list file line) := by
  rw [editFor?]
  cases editFor kind list file line with
  | none => rfl
  | some e => exact if_pos h

/-! ## Inversion -/

/-- The edits that stamp a call whose argument list ends at `close`. -/
inductive EditForm (kind : CalleeKind) (list : ArgumentList) (close : Int) (file : Text)
    (line : Int) : Edit → Prop where
  /-- The stamp is the only argument of a hook. -/
  | whole (hkind : kind = .hook) (hempty : list.layout.isEmpty = true) :
    EditForm kind list close file line (.replace (list.openParen + 1) close (object file line))
  /-- It replaces the last object argument of a hook, which is empty. -/
  | literal (hkind : kind = .hook) {o : ObjectLiteral} (ho : list.layout.lastObject? = some o)
    (hempty : o.isEmpty = true) :
    EditForm kind list close file line (.replace o.openBrace (o.closeBrace + 1) (object file line))
  /-- It joins the last object argument of a hook. -/
  | joined (hkind : kind = .hook) {o : ObjectLiteral} (ho : list.layout.lastObject? = some o)
    (hfilled : o.isEmpty = false) :
    EditForm kind list close file line
      (.insert o.contentEnd (separator o.endsWithComma ++ property file line))
  /-- It is the last one of further arguments. -/
  | added (n : Nat) (hnone : kind = .hook → list.layout.lastObject? = none) :
    EditForm kind list close file line
      (append close list.layout (List.replicate n placeholder ++ [object file line]))

/-- **Inversion**: a call that takes a stamp has a closing parenthesis, and its edit is one of
these. -/
theorem exists_editForm {kind : CalleeKind} {list : ArgumentList} {file : Text} {line : Int}
    {e : Edit} (he : editFor kind list file line = some e) :
    ∃ close, list.closeParen = some close ∧ EditForm kind list close file line e := by
  unfold editFor at he
  split at he
  · cases he
  · next close hclose =>
    refine ⟨close, hclose, ?_⟩
    cases kind with
    | hook =>
      obtain rfl := Option.some.inj he
      unfold hookEdit
      split
      · next hempty => exact .whole rfl hempty
      · split
        · next hnone => exact .added 0 fun _ => hnone
        · next o ho =>
          split
          · next hempty => exact .literal rfl ho hempty
          · next hfilled => exact .joined rfl ho (Bool.eq_false_iff.mpr hfilled)
    | wrapper =>
      dsimp only [wrapperEdit?] at he
      split at he
      · obtain rfl := Option.some.inj he
        exact .added 0 nofun
      · cases he
    | method =>
      dsimp only [methodEdit?] at he
      split at he
      · cases he
      · obtain rfl := Option.some.inj he
        exact .added _ nofun

end Stamp
end SourceStamp
