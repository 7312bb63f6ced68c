import SourceStamp.Proofs.Files.Writing

/-!
# The way down to a file

- `Text.isEntryName`, `Listing.isNamed`: the names that entries of a directory can have.
- `FileSystem.descend_folder`: a pathname that leads to a directory leads on from there.
- `FileSystem.descend_names`: names lead from a directory to the file that they name.
- `FileSystem.read_of_find`: a file that a pathname leads to can be read.
-/

namespace SourceStamp

/-- Whether a text can name an entry of a directory. -/
def Text.isEntryName (t : Text) : Bool :=
  !t.isEmpty && t != Pathname.here && t != Pathname.above && !t.contains '/' && !t.contains '\x00'

namespace Listing

/-- Whether all entries, also those of the directories below, are named by texts that can do so. -/
def isNamed : Listing → Bool
  | nil => true
  | file name _ rest => name.isEntryName && rest.isNamed
  | folder name entries rest => name.isEntryName && entries.isNamed && rest.isNamed

theorem isEntryName_of_get? {l : Listing} (h : l.isNamed = true) {name : Text} {node : FileNode}
    (hget : l.get? name = some node) : name.isEntryName = true := by
  induction l with
  | nil => cases hget
  | file m bytes rest ih => grind [get?, isNamed]
  | folder m entries rest _ ih => grind [get?, isNamed]

theorem isNamed_of_get? {l below : Listing} (h : l.isNamed = true) {name : Text}
    (hget : l.get? name = some (.folder below)) : below.isNamed = true := by
  induction l with
  | nil => cases hget
  | file m bytes rest ih => grind [get?, isNamed]
  | folder m entries rest _ ih => grind [get?, isNamed]

end Listing

namespace FileSystem

theorem Below.start (top : Listing) : Below top [] top := rfl

/-- What holds of the topmost directory and of the directories in a directory of which it holds,
holds of every directory. -/
theorem Below.of_top {motive : Listing → Prop} {top : Listing} {trail : List (Text × Listing)}
    {l : Listing} (h : Below top trail l) (htop : motive top)
    (hfolder : ∀ (l : Listing) (name : Text) (below : Listing), motive l →
      l.get? name = some (.folder below) → motive below) : motive l := by
  induction trail generalizing l with
  | nil => exact h ▸ htop
  | cons step trail ih => exact hfolder _ _ _ (ih h.2) h.1

theorem Below.distinct {top : Listing} {trail : List (Text × Listing)} {l : Listing}
    (h : Below top trail l) (htop : top.Distinct) : l.Distinct :=
  h.of_top htop fun _ _ _ hl hget => hl.get? hget

theorem Below.isNamed {top : Listing} {trail : List (Text × Listing)} {l : Listing}
    (h : Below top trail l) (htop : top.isNamed = true) : l.isNamed = true :=
  h.of_top htop fun _ _ _ hl hget => Listing.isNamed_of_get? hl hget

/-- Where parts lead to a directory, further parts lead on from that directory. -/
theorem descend_folder {top : Listing} {parts : List Text} {trail : List (Text × Listing)}
    {l : Listing} (h : Below top trail l) {place : List Text} {entries : Listing}
    (hd : descend trail l parts = .ok ⟨place, .folder entries⟩) :
    ∃ trail', Below top trail' entries ∧ placeOf trail' = place ∧
      ∀ rest, descend trail l (parts ++ rest) = descend trail' entries rest := by
  fun_induction descend trail l parts with
  | case1 trail l =>
    cases hd
    exact ⟨trail, h, rfl, fun _ => rfl⟩
  | case2 l rest ih =>
    obtain ⟨trail', hbelow, hplace, hon⟩ := ih h hd
    refine ⟨trail', hbelow, hplace, fun rest' => ?_⟩
    rw [← hon rest', List.cons_append, descend_above]
  | case3 l rest name parent trail ih =>
    obtain ⟨trail', hbelow, hplace, hon⟩ := ih h.2 hd
    refine ⟨trail', hbelow, hplace, fun rest' => ?_⟩
    rw [← hon rest', List.cons_append, descend_above_cons]
  | case4 => cases hd
  | case5 trail l part rest hpart below hget ih =>
    obtain ⟨trail', hbelow, hplace, hon⟩ := ih ⟨hget, h⟩ hd
    refine ⟨trail', hbelow, hplace, fun rest' => ?_⟩
    rw [List.cons_append, descend_into hpart hget, hon]
  | case6 => cases hd
  | case7 => cases hd

/-- Names lead from a directory to the file that they name. -/
theorem descend_names {names : List Text} {trail : List (Text × Listing)} {l : Listing}
    (hnamed : l.isNamed = true) (hfile : l.HasFile names) :
    ∃ bytes, descend trail l names = .ok ⟨placeOf trail ++ names, .file bytes⟩ := by
  induction names generalizing trail l with
  | nil => exact hfile.elim
  | cons name rest ih =>
    have habove : ∀ {node : FileNode}, l.get? name = some node → name ≠ Pathname.above := by
      intro node hget heq
      have := Listing.isEntryName_of_get? hnamed hget
      rw [heq] at this
      exact absurd this (by decide)
    by_cases hrest : rest = []
    · subst hrest
      obtain ⟨bytes, hget⟩ := hfile
      exact ⟨bytes, descend_at_file (habove hget) hget⟩
    · obtain ⟨below, hget, hbelow⟩ := (Listing.hasFile_cons_iff hrest).mp hfile
      obtain ⟨bytes, hd⟩ := @ih ((name, l) :: trail) _ (Listing.isNamed_of_get? hnamed hget) hbelow
      refine ⟨bytes, ?_⟩
      rw [descend_into (habove hget) hget, hd, placeOf_cons, List.append_assoc,
        List.singleton_append]

/-- No part that leads somewhere holds a null character. -/
theorem null_notMem_of_descend {top : Listing} (hnamed : top.isNamed = true) {parts : List Text}
    {trail : List (Text × Listing)} {l : Listing} (h : Below top trail l) {d : Destination}
    (hd : descend trail l parts = .ok d) : ∀ part ∈ parts, '\x00' ∉ part := by
  have hname : ∀ {l : Listing} {trail : List (Text × Listing)} {part : Text} {node : FileNode},
      Below top trail l → l.get? part = some node → '\x00' ∉ part := by
    intro l trail part node h hget
    have := Listing.isEntryName_of_get? (h.isNamed hnamed) hget
    simp only [Text.isEntryName, Bool.and_eq_true, Bool.not_eq_true', List.contains_eq_mem,
      decide_eq_false_iff_not] at this
    exact this.2
  fun_induction descend trail l parts with
  | case1 => exact fun _ hm => absurd hm List.not_mem_nil
  | case2 l rest ih => exact List.forall_mem_cons.mpr ⟨by decide, ih h hd⟩
  | case3 l rest name parent trail ih => exact List.forall_mem_cons.mpr ⟨by decide, ih h.2 hd⟩
  | case4 => cases hd
  | case5 trail l part rest hpart below hget ih =>
    exact List.forall_mem_cons.mpr ⟨hname h hget, ih ⟨hget, h⟩ hd⟩
  | case6 trail l part rest hpart bytes hget hrest =>
    rw [List.isEmpty_iff.mp hrest]
    exact List.forall_mem_cons.mpr ⟨hname h hget, fun _ hm => absurd hm List.not_mem_nil⟩
  | case7 => cases hd

variable {fs : FileSystem} {p : Pathname}

/-- A file that a pathname leads to can be read. -/
theorem read_of_find (hnamed : fs.top.isNamed = true) {place : List Text} {bytes : Bytes}
    (h : fs.find p = .ok ⟨place, .file bytes⟩) : fs.read p = .ok (place, bytes) := by
  refine read_eq_ok_iff.mpr ⟨List.any_eq_false.mpr fun part hm => ?_, h⟩
  have hpart : part ∈ fs.partsFromTop p := by
    unfold partsFromTop
    split
    · exact hm
    · exact List.mem_append_right _ hm
  simpa using null_notMem_of_descend hnamed (.start fs.top) h part hpart

end FileSystem
end SourceStamp
