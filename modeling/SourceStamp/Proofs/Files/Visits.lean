import SourceStamp.Proofs.Files.Places
import SourceStamp.Proofs.Files.WrittenBack

/-!
# Files after visits

A run visits one file after the other, and writes what it visits. What it visits later it reads as
it then is.

- `FileSystem.stampedBytes`: the content of a file after it was stamped.
- `FileSystem.visited`: the files after a visit, `FileSystem.read_visited` what is read there.
- `FileSystem.read_visitedAll`: after several visits a file has passed through those that lead to
  it, in order.
-/

namespace SourceStamp

/-- Whether bytes are a text in UTF-8. -/
def Encoding.isText (bytes : Bytes) : Bool := (utf8.decode bytes).isOk

theorem Encoding.isText_iff {bytes : Bytes} :
    isText bytes = true ↔ ∃ t, utf8.decode bytes = .ok t := by
  rw [isText]
  cases utf8.decode bytes <;> simp [Except.isOk, Except.toBool]

namespace FileSystem

variable {fs : FileSystem} {names : MonitoredNames} {write : Bool} {p q : Pathname}
  {place found : List Text} {bytes content : Bytes}

/-- A pathname leads to a file that can be read. -/
abbrev CanRead (fs : FileSystem) (p : Pathname) : Prop := ∃ r, fs.read p = .ok r

/-- The content of a file after it was stamped with a path: the stamped text if the text changed,
and else what it was, also if it is no text. -/
def stampedBytes (names : MonitoredNames) (path : Option Text) (bytes : Bytes) : Bytes :=
  match textOf .utf8 bytes with
  | .ok source =>
    let stamped := stamp names source path
    if stamped.changed then Encoding.utf8Bytes stamped.text else bytes
  | .error _ => bytes

/-- A file that holds no text is not stamped. -/
theorem stampFile_of_error (hread : fs.read p = .ok (place, bytes)) {e : FileError}
    (htext : textOf .utf8 bytes = .error e) : fs.stampFile names .utf8 write p = .error e := by
  unfold stampFile
  rw [hread]
  show (textOf .utf8 bytes >>= _) = _
  rw [htext]
  rfl

/-- The files after a visit. -/
def visited (fs : FileSystem) (names : MonitoredNames) (write : Bool) (p : Pathname) : FileSystem :=
  match fs.stampFile names .utf8 write p with
  | .ok done => done.files
  | .error _ => fs

/-- A visit that does not write leaves the files as they are. -/
theorem visited_dry (fs : FileSystem) (names : MonitoredNames) (p : Pathname) :
    fs.visited names false p = fs := by
  rw [visited]
  cases hread : fs.read p with
  | error e =>
    unfold stampFile
    rw [hread]
    rfl
  | ok r =>
    obtain ⟨place, bytes⟩ := r
    cases htext : textOf .utf8 bytes with
    | error e => rw [stampFile_of_error hread htext]
    | ok source =>
      rw [stampFile_of_text hread htext]
      dsimp only
      split
      · rfl
      · rfl

/-- **A visit** changes the content of the file that it leads to, and nothing else. -/
theorem read_visited (hp : fs.read p = .ok (place, bytes)) (hq : fs.read q = .ok (found, content)) :
    (fs.visited names true p).read q =
      .ok (found, if found = place then stampedBytes names (some p.text) content else content) := by
  -- two pathnames may lead to one file
  have hsame : found = place → content = bytes := by
    rintro rfl
    have hcontent := contentAt?_of_read hq
    rw [contentAt?_of_read hp] at hcontent
    exact (Option.some.inj hcontent).symm
  have hkept : stampedBytes names (some p.text) bytes = bytes →
      fs.read q = .ok (found,
        if found = place then stampedBytes names (some p.text) content else content) := by
    intro hbytes
    rw [hq]
    split
    · next hplace => rw [hsame hplace, hbytes]
    · rfl
  rw [visited]
  cases htext : textOf .utf8 bytes with
  | error e =>
    rw [stampFile_of_error hp htext]
    exact hkept (by rw [stampedBytes, htext])
  | ok source =>
    rw [stampFile_of_text hp htext]
    dsimp only
    by_cases hchanged : (stamp names source (some p.text)).changed = true
    · rw [if_pos hchanged, if_pos rfl, read_putFile hp hq]
      split
      · next hplace =>
        rw [hsame hplace, stampedBytes, htext]
        dsimp only
        rw [if_pos hchanged]
      · rfl
    · rw [if_neg hchanged]
      refine hkept ?_
      rw [stampedBytes, htext]
      dsimp only
      rw [if_neg hchanged]

/-- A visit leaves every pathname leading where it led. -/
theorem canRead_visited (hp : fs.CanRead p) (hq : fs.CanRead q) :
    (fs.visited names write p).CanRead q := by
  obtain ⟨⟨place, bytes⟩, hp⟩ := hp
  obtain ⟨⟨found, content⟩, hq'⟩ := hq
  cases write with
  | false => exact ⟨_, (visited_dry fs names p).symm ▸ hq'⟩
  | true => exact ⟨_, read_visited hp hq'⟩

/-- What two pathnames lead to in two file systems stays the same after a visit in both. -/
theorem read_visited_congr {fs' : FileSystem} {r r' : List Text × Bytes} (hp : fs.read p = .ok r)
    (hp' : fs'.read p = .ok r) (hq : fs.read q = .ok r') (hq' : fs'.read q = .ok r') :
    ∃ r'', (fs.visited names write p).read q = .ok r'' ∧
      (fs'.visited names write p).read q = .ok r'' := by
  cases write with
  | false => exact ⟨r', by rw [visited_dry, hq], by rw [visited_dry, hq']⟩
  | true => exact ⟨_, read_visited hp hq, read_visited hp' hq'⟩

theorem leadsTo_of_read (hq : fs.read q = .ok (found, content)) :
    fs.leadsTo place q = (found == place) := by
  rw [leadsTo, hq]

theorem leadsTo_visited (hp : fs.CanRead p) (hq : fs.CanRead q)
    (place : List Text) :
    (fs.visited names true p).leadsTo place q = fs.leadsTo place q := by
  obtain ⟨⟨found, bytes⟩, hp⟩ := hp
  obtain ⟨⟨found, content⟩, hq⟩ := hq
  rw [leadsTo_of_read (read_visited hp hq), leadsTo_of_read hq]

/-- The files after several visits. -/
def visitedAll (fs : FileSystem) (names : MonitoredNames) (write : Bool) (ps : List Pathname) :
    FileSystem :=
  ps.foldl (fun fs p => fs.visited names write p) fs

/-- The content of a file after it was stamped several times, each time with the pathname that led
to it. -/
def stampedInTurn (names : MonitoredNames) (ps : List Pathname) (bytes : Bytes) : Bytes :=
  ps.foldl (fun bytes p => stampedBytes names (some p.text) bytes) bytes

theorem visitedAll_dry (fs : FileSystem) (names : MonitoredNames) (ps : List Pathname) :
    fs.visitedAll names false ps = fs := by
  induction ps with
  | nil => rfl
  | cons p ps ih =>
    rw [visitedAll, List.foldl_cons, visited_dry]
    exact ih

/-- **Visits**: a file is stamped once for each pathname that leads to it. -/
theorem read_visitedAll {ps : List Pathname} (hps : ∀ p ∈ ps, fs.CanRead p)
    (hq : fs.read q = .ok (found, content)) :
    (fs.visitedAll names true ps).read q =
      .ok (found, stampedInTurn names (ps.filter (fs.leadsTo found)) content) := by
  induction ps generalizing fs content with
  | nil => exact hq
  | cons p ps ih =>
    obtain ⟨hp, hps⟩ := List.forall_mem_cons.mp hps
    have hfilter : ps.filter ((fs.visited names true p).leadsTo found) =
        ps.filter (fs.leadsTo found) :=
      List.filter_congr fun q hq => leadsTo_visited hp (hps q hq) found
    obtain ⟨⟨place, bytes⟩, hp'⟩ := hp
    have hafter : (fs.visited names true p).read q = .ok (found, _) := read_visited hp' hq
    have hrest := ih (fun q hq => canRead_visited ⟨_, hp'⟩ (hps q hq)) hafter
    rw [hfilter] at hrest
    rw [visitedAll, List.foldl_cons]
    refine hrest.trans ?_
    rw [List.filter_cons, leadsTo_of_read hp']
    by_cases hplace : found = place
    · simp [hplace, stampedInTurn]
    · simp [hplace, Ne.symm hplace]

/-! ## Texts -/

theorem exists_textOf (h : Encoding.isText bytes = true) :
    ∃ source, textOf .utf8 bytes = .ok source := by
  obtain ⟨t, htext⟩ := Encoding.isText_iff.mp h
  exact ⟨Text.universalNewlines t, by rw [textOf, htext]⟩

theorem exists_textOf_error (h : Encoding.isText bytes = false) :
    ∃ e, textOf .utf8 bytes = .error (.undecodable e) := by
  rw [Encoding.isText] at h
  rw [textOf]
  cases hdecode : Encoding.utf8.decode bytes with
  | error e => exact ⟨e, rfl⟩
  | ok t =>
    rw [hdecode] at h
    cases h

/-- Bytes that are no text are left as they are. -/
theorem stampedBytes_of_not_isText {path : Option Text} (h : Encoding.isText bytes = false) :
    stampedBytes names path bytes = bytes := by
  obtain ⟨e, htext⟩ := exists_textOf_error h
  rw [stampedBytes, htext]

/-- The text of a file after it was stamped. -/
theorem decode_stampedBytes {path : Option Text} {t : Text}
    (htext : Encoding.utf8.decode bytes = .ok t) :
    Encoding.utf8.decode (stampedBytes names path bytes) = .ok (writtenBack names path t) := by
  rw [stampedBytes, textOf, htext, writtenBack]
  dsimp only
  split
  · exact Encoding.decode_utf8Bytes _
  · exact htext

/-- Stamping does not make a text of bytes that are none, nor the other way round. -/
theorem isText_stampedBytes (names : MonitoredNames) (path : Option Text) (bytes : Bytes) :
    Encoding.isText (stampedBytes names path bytes) = Encoding.isText bytes := by
  cases h : Encoding.isText bytes with
  | false => rw [stampedBytes_of_not_isText h, h]
  | true =>
    obtain ⟨t, htext⟩ := Encoding.isText_iff.mp h
    exact Encoding.isText_iff.mpr ⟨_, decode_stampedBytes htext⟩

/-- Whether a pathname leads to a file whose content passes a test. -/
def holds (fs : FileSystem) (test : Bytes → Bool) (p : Pathname) : Bool :=
  match fs.read p with
  | .ok (_, bytes) => test bytes
  | .error _ => false

theorem holds_of_read (hp : fs.read p = .ok (place, bytes)) (test : Bytes → Bool) :
    fs.holds test p = test bytes := by
  rw [holds, hp]

/-- Whether a pathname leads to a file whose content is a text. -/
def holdsText (fs : FileSystem) (p : Pathname) : Bool := fs.holds Encoding.isText p

theorem holdsText_of_read (hp : fs.read p = .ok (place, bytes)) :
    fs.holdsText p = Encoding.isText bytes :=
  holds_of_read hp Encoding.isText

/-- A visit to a file that is no text leaves the files as they are. -/
theorem visited_of_not_holdsText (hp : fs.CanRead p) (h : fs.holdsText p = false) :
    fs.visited names write p = fs := by
  obtain ⟨⟨place, bytes⟩, hp⟩ := hp
  rw [holdsText_of_read hp] at h
  obtain ⟨e, htext⟩ := exists_textOf_error h
  rw [visited, stampFile_of_error hp htext]

/-- A visit leaves texts to be texts. -/
theorem holdsText_visited (hp : fs.CanRead p) (hq : fs.CanRead q) :
    (fs.visited names write p).holdsText q = fs.holdsText q := by
  obtain ⟨⟨place, bytes⟩, hp⟩ := hp
  obtain ⟨⟨found, content⟩, hq⟩ := hq
  cases write with
  | false => rw [visited_dry]
  | true =>
    rw [holdsText_of_read (read_visited hp hq), holdsText_of_read hq]
    split
    · exact isText_stampedBytes ..
    · rfl

/-- A text that was stamped several times, each time with one of the pathnames. -/
def stampedWith (names : MonitoredNames) (ps : List Pathname) (t : Text) : Text :=
  ps.foldl (fun t p => (stamp names t (some p.text)).text) t

/-- Without carriage returns the text of a file after several visits is the text stamped as many
times. -/
theorem decode_stampedInTurn {t : Text} (htext : Encoding.utf8.decode bytes = .ok t)
    (hreturn : '\r' ∉ t) (ps : List Pathname) :
    Encoding.utf8.decode (stampedInTurn names ps bytes) =
      .ok (stampedWith names ps t) := by
  induction ps generalizing bytes t with
  | nil => exact htext
  | cons p ps ih =>
    have hstamped : Encoding.utf8.decode (stampedBytes names (some p.text) bytes) =
        .ok (stamp names t (some p.text)).text := by
      rw [decode_stampedBytes htext, writtenBack_eq hreturn]
    exact ih hstamped fun h => hreturn (mem_of_mem_stamp_text (by decide) h)

/-- Bytes that are no text are left as they are by any number of visits. -/
theorem stampedInTurn_of_not_isText (h : Encoding.isText bytes = false) (ps : List Pathname) :
    stampedInTurn names ps bytes = bytes := by
  induction ps with
  | nil => rfl
  | cons p ps ih =>
    rw [stampedInTurn, List.foldl_cons, stampedBytes_of_not_isText h]
    exact ih

/-- A text that changes under no pathname with which it is visited stays as it is. -/
theorem stampedInTurn_of_not_changed {source : Text} (htext : textOf .utf8 bytes = .ok source)
    {ps : List Pathname}
    (h : ∀ p ∈ ps, (stamp names source (some p.text)).changed = false) :
    stampedInTurn names ps bytes = bytes := by
  induction ps with
  | nil => rfl
  | cons p ps ih =>
    obtain ⟨hp, hps⟩ := List.forall_mem_cons.mp h
    have hsame : stampedBytes names (some p.text) bytes = bytes := by
      rw [stampedBytes, htext]
      simp [hp]
    rw [stampedInTurn, List.foldl_cons, hsame]
    exact ih hps

end FileSystem
end SourceStamp
