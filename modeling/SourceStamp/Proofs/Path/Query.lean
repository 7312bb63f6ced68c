import SourceStamp.Proofs.Text.Pieces
import SourceStamp.Stack.Caller

/-!
# Queries and fragments of paths

What a path shows as and what its stamp names come from the path before its query. The file name is
cut out of the whole, so a separator in the query hides those of the path.

- `ModulePath.IsBare`, `ModulePath.IsQuery`: paths, and what may follow them.
- `ModulePath.withoutQuery_append`: what follows a path is taken away.
- `ModulePath.fileName_append`: the last segment of the path, or of the query if that has a
  separator.
- `FramePolicy.locationOf_append_query`: a frame tells the path as without the query, but the file
  name may be one from the query.
-/

namespace SourceStamp
namespace ModulePath

open Text (lastPiece)

variable {path query : Text}

/-- A path has neither a query nor a fragment. -/
def IsBare (path : Text) : Prop := ∀ c ∈ path, c ≠ '?' ∧ c ≠ '#'

instance (path : Text) : Decidable (IsBare path) :=
  inferInstanceAs (Decidable (∀ c ∈ path, c ≠ '?' ∧ c ≠ '#'))

/-- What may follow a path: nothing, a query or a fragment. -/
def IsQuery (query : Text) : Prop := ∀ c ∈ query.head?, c = '?' ∨ c = '#'

instance (query : Text) : Decidable (IsQuery query) :=
  inferInstanceAs (Decidable (∀ c ∈ query.head?, c = '?' ∨ c = '#'))

theorem withoutQuery_append (hpath : IsBare path) (hquery : IsQuery query) :
    withoutQuery (path ++ query) = path := by
  have hnone : query.takeWhile (fun c => c != '?' && c != '#') = [] := by
    cases query with
    | nil => rfl
    | cons c query => rcases hquery c rfl with rfl | rfl <;> rfl
  rw [withoutQuery, List.takeWhile_append_of_pos, hnone, List.append_nil]
  intro c hc
  simpa using hpath c hc

theorem withoutQuery_of_isBare (hpath : IsBare path) : withoutQuery path = path := by
  have hnone : IsQuery [] := nofun
  have h := withoutQuery_append hpath hnone
  rwa [List.append_nil] at h

theorem isBare_lastPiece (hpath : IsBare path) : IsBare (lastPiece isSeparator path) :=
  fun c hc => hpath c ((Text.lastPiece_suffix isSeparator path).subset hc)

/-- The file name of a path with a query: a separator in the query hides those of the path. -/
theorem fileName_append (hpath : IsBare path) (hquery : IsQuery query) :
    fileName (path ++ query) =
      if query.any isSeparator then fileName query else fileName path := by
  rw [fileName, Text.lastPiece_append]
  split
  · rfl
  · rw [withoutQuery_append (isBare_lastPiece hpath) hquery, fileName,
      withoutQuery_of_isBare (isBare_lastPiece hpath)]

theorem display_append (hpath : IsBare path) (hquery : IsQuery query) :
    display (path ++ query) = display path := by
  rw [display, display, withoutQuery_append hpath hquery, withoutQuery_of_isBare hpath]

theorem stampName_append (hpath : IsBare path) (hquery : IsQuery query) :
    stampName (path ++ query) = stampName path := by
  rw [stampName, stampName, display_append hpath hquery, withoutQuery_append hpath hquery,
    withoutQuery_of_isBare hpath]

end ModulePath

/-- **Queries and fragments** after a path change neither what it shows as nor what its stamp names,
and so not the path in the location of a frame. The file name, there too, is that of the path as
long as no separator follows, and is cut out of the query otherwise. -/
theorem FramePolicy.locationOf_append_query (f : FramePolicy) {path query : Text}
    (hpath : ModulePath.IsBare path) (hquery : ModulePath.IsQuery query) :
    ModulePath.display (path ++ query) = ModulePath.display path ∧
      ModulePath.stampName (path ++ query) = ModulePath.stampName path ∧
      ModulePath.fileName (path ++ query) =
        (if query.any ModulePath.isSeparator then ModulePath.fileName query
          else ModulePath.fileName path) ∧
      ∀ frame : Frame, frame.filePath = some (path ++ query) → path ++ query ≠ [] →
        (f.locationOf frame).filePath = some (ModulePath.display path) ∧
          (f.locationOf frame).fileName =
            some (if query.any ModulePath.isSeparator then ModulePath.fileName query
              else ModulePath.fileName path) := by
  have hdisplay := ModulePath.display_append hpath hquery
  have hname := ModulePath.fileName_append hpath hquery
  refine ⟨hdisplay, ModulePath.stampName_append hpath hquery, hname, ?_⟩
  intro frame hframe hne
  rw [f.locationOf_filePath hframe hne, f.locationOf_fileName hframe hne, hdisplay, hname]
  exact ⟨rfl, rfl⟩

/-- The file name of a path with a redirection in its query is that of the redirection. -/
theorem FramePolicy.locationOf_append_query_redirection :
    ModulePath.IsBare "src/app.ts".toList ∧ ModulePath.IsQuery "?next=/login".toList ∧
      ModulePath.display "src/app.ts?next=/login".toList =
        ModulePath.display "src/app.ts".toList ∧
      ModulePath.fileName "src/app.ts?next=/login".toList = "login".toList ∧
      ((standard .sample).locationOf
        ⟨none, some "src/app.ts?next=/login".toList, some 1, none⟩).fileName =
          some "login".toList := by
  have hbare : ModulePath.IsBare "src/app.ts".toList := by simp [ModulePath.IsBare]
  have hquery : ModulePath.IsQuery "?next=/login".toList := by simp [ModulePath.IsQuery]
  obtain ⟨hdisplay, -, hname, hframe⟩ :=
    (standard .sample).locationOf_append_query hbare hquery
  refine ⟨hbare, hquery, hdisplay, hname.trans (by decide), ?_⟩
  exact (hframe ⟨none, _, some 1, none⟩ rfl (by decide)).2.trans (by decide)

end SourceStamp
