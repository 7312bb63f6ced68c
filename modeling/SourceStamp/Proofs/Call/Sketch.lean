import Mathlib.Data.List.Induction
import SourceStamp.Proofs.Call.Brackets
import SourceStamp.Proofs.Call.Moved

/-!
# Sketches of argument lists

An outline remembers characters, which depend on more than what is shown. Without them it is a
sketch, and the sketch of a text can be told from the sights of the text.

- `Sketch`, `sketch`: the commas, brace pairs and marks of what is shown.
- `Outline.sketch_ofText`: the outline of a text has the sketch of its sights.
- `Sketch.sketch_append`: after a text whose brackets all close, the next one is sketched as it is on
  its own.
- `Sketch.run_inside`: what all closes inside brackets leaves no trace, so by `sketch_insert` it only
  moves what stands after it.
- `Sketch.wholePairs`: the pairs of braces that are whole arguments, which a layout lists by
  `ArgumentLayout.objects_eq`. `Sketch.wholePair?_exchange` says what becomes of the last one when
  another text is put into it.
-/

namespace SourceStamp

open Outline (isOpener isCloser)

/-- What is known of an argument list by what it shows. The lists hold the latest element first. -/
structure Sketch where
  /-- The places of the commas outside all brackets. -/
  commas : List Nat
  /-- The places of the brace pairs outside all other brackets. -/
  pairs : List (Nat × Nat)
  /-- The open brackets with their places, the innermost first. -/
  openBrackets : List (Char × Nat)
  /-- The places of what is shown outside all brackets, commas excluded. -/
  marks : List Nat
  deriving DecidableEq, Repr

namespace Sketch

/-- Nothing is known yet. -/
def empty : Sketch := ⟨[], [], [], []⟩

/-- What stands at a place marks an argument if it is outside all brackets. -/
def mark (k : Sketch) (p : Nat) : Sketch :=
  if k.openBrackets.isEmpty then { k with marks := p :: k.marks } else k

/-- A closing bracket closes the innermost open one, of whatever kind. -/
def close (k : Sketch) (c : Char) (p : Nat) : Sketch :=
  match k.openBrackets with
  | [] => k
  | (opener, opened) :: rest =>
    let k' := { k with openBrackets := rest }
    if opener = '{' ∧ c = '}' ∧ rest = [] then { k' with pairs := (opened, p) :: k.pairs } else k'

/-- The sketch after one more sight. -/
def add (k : Sketch) (p : Nat) : Sight → Sketch
  | .hidden => k
  | .text => k.mark p
  | .code c =>
    let marked := if c = ',' then k else k.mark p
    if isOpener c then { marked with openBrackets := (c, p) :: k.openBrackets }
    else if isCloser c then marked.close c p
    else if c = ',' ∧ k.openBrackets = [] then { marked with commas := p :: k.commas }
    else marked

/-- The sketch after more sights, the first of them at a place. -/
def run (k : Sketch) (p : Nat) : List Sight → Sketch
  | [] => k
  | s :: l => (k.add p s).run (p + 1) l

/-- The sketch with all places moved. -/
def map (φ : Nat → Nat) (k : Sketch) : Sketch :=
  ⟨k.commas.map φ, k.pairs.map (Prod.map φ φ), k.openBrackets.map (Prod.map id φ), k.marks.map φ⟩

/-- Whether a pair of braces makes up a whole argument: between the commas around it, its opening
brace is the only mark. -/
def isWhole (k : Sketch) (pair : Nat × Nat) : Bool :=
  (k.marks.filter fun m =>
    k.commas.all fun c => decide (c < pair.1 → c < m) && decide (pair.2 < c → m < c)).length == 1

/-- The pairs of braces that make up whole arguments. -/
def wholePairs (k : Sketch) : List (Nat × Nat) := k.pairs.filter k.isWhole

/-- The last pair of braces that makes up a whole argument. -/
def wholePair? (k : Sketch) : Option (Nat × Nat) := k.pairs.find? k.isWhole

/-- The sketch together with what was known before it. -/
def after (k earlier : Sketch) : Sketch :=
  ⟨k.commas ++ earlier.commas, k.pairs ++ earlier.pairs, k.openBrackets, k.marks ++ earlier.marks⟩

end Sketch

/-- The sketch of all sights of a text. -/
def sketch (l : List Sight) : Sketch := Sketch.empty.run 0 l

/-! ## Outlines -/

namespace Outline

/-- What the outline knows apart from characters. -/
def sketch (o : Outline) : Sketch :=
  ⟨o.commas, o.braces.map fun b => (b.opened, b.closed), o.openBrackets, o.marks⟩

theorem sketch_mark (o : Outline) (v : Visit) : (o.mark v).sketch = o.sketch.mark v.position := by
  unfold mark Sketch.mark
  show _ = if o.openBrackets.isEmpty then _ else _
  split <;> rfl

theorem sketch_touch (o : Outline) (v : Visit) : (o.touch v).sketch = o.sketch := rfl

theorem bracePair_opened (o : Outline) (opened : Nat) (v : Visit) :
    (o.bracePair opened v).opened = opened := by
  unfold bracePair
  split <;> rfl

theorem sketch_close (o : Outline) (v : Visit) :
    (o.close v).sketch = o.sketch.close v.char v.position := by
  have hopen : o.sketch.openBrackets = o.openBrackets := rfl
  rw [close, Sketch.close, hopen]
  cases o.openBrackets with
  | nil => rfl
  | cons b rest =>
    obtain ⟨opener, opened⟩ := b
    dsimp only
    split
    · rw [sketch, List.map_cons, bracePair_opened, bracePair_closed]
      rfl
    · rfl

/-- A visit of code. -/
theorem sketch_addCode (o : Outline) (v : Visit) :
    (o.addCode v).sketch = o.sketch.add v.position (.code v.char) := by
  have hmarked : (if v.char = ',' then o else o.mark v).sketch =
      if v.char = ',' then o.sketch else o.sketch.mark v.position := by
    split
    · rfl
    · exact sketch_mark o v
  have hopen : o.openBrackets = o.sketch.openBrackets := rfl
  unfold addCode Sketch.add
  dsimp only
  rw [sketch_touch, ← hmarked, ← hopen]
  split
  · rfl
  · split
    · exact sketch_close _ v
    · split <;> rfl

/-- The step: one more visit for the outline is one more sight for the sketch. -/
theorem sketch_add (o : Outline) (v : Visit) :
    (o.add v).sketch = o.sketch.add v.position v.sight := by
  cases hs : v.isSignificant with
  | false =>
    rw [add_of_not_isSignificant hs, Visit.sight, hs]
    rfl
  | true =>
    rw [add_of_isSignificant hs, Visit.sight, hs]
    cases hcode : v.state.isCode with
    | false => exact (sketch_touch _ v).trans (sketch_mark o v)
    | true => exact sketch_addCode o v

/-- The run. -/
theorem sketch_foldl (o : Outline) (r : Reading) (p : Nat) (x : Text) :
    ((r.visits p x).foldl add o).sketch = o.sketch.run p (r.sights none x) := by
  induction x generalizing o r p with
  | nil => rfl
  | cons c x ih =>
    rw [Reading.sights_cons, Option.or_none, Sketch.run]
    cases hh : r.halfway with
    | true =>
      rw [Reading.visits_of_halfway hh, ih, Reading.sight, hh]
      rfl
    | false =>
      rw [Reading.visits_of_not_halfway hh, List.foldl_cons, ih, sketch_add, Reading.sight, hh]
      rfl

/-- The outline of a text has the sketch of its sights. -/
theorem sketch_ofText (x : Text) :
    ((Scanner.start x).visits.foldl add .empty).sketch = SourceStamp.sketch (sights x) := by
  rw [Scanner.visits_eq]
  exact sketch_foldl .empty Reading.start 0 x

end Outline

/-! ## Runs -/

namespace Sketch

variable {k : Sketch} {p : Nat} {l : List Sight}

theorem run_append (k : Sketch) (p : Nat) (l m : List Sight) :
    k.run p (l ++ m) = (k.run p l).run (p + l.length) m := by
  induction l generalizing k p with
  | nil => rfl
  | cons s l ih =>
    rw [List.cons_append, run, run, ih, List.length_cons, Nat.add_assoc, Nat.add_comm 1]

theorem run_hidden (hl : ∀ s ∈ l, s = .hidden) (k : Sketch) (p : Nat) : k.run p l = k := by
  induction l generalizing p with
  | nil => rfl
  | cons s l ih =>
    obtain ⟨hs, hl⟩ := List.forall_mem_cons.mp hl
    rw [hs]
    exact ih hl (p + 1)

/-! ## Places -/

/-- All places of the sketch are before one. -/
structure Below (k : Sketch) (n : Nat) : Prop where
  commas_lt : ∀ p ∈ k.commas, p < n
  pairs_lt : ∀ b ∈ k.pairs, b.1 < n ∧ b.2 < n
  open_lt : ∀ b ∈ k.openBrackets, b.2 < n
  marks_lt : ∀ p ∈ k.marks, p < n

theorem below_empty (n : Nat) : empty.Below n :=
  ⟨fun _ h => (nomatch h), fun _ h => (nomatch h), fun _ h => (nomatch h), fun _ h => (nomatch h)⟩

theorem Below.of_le (h : k.Below p) {n : Nat} (hle : p ≤ n) : k.Below n where
  commas_lt := fun q hq => Nat.lt_of_lt_of_le (h.commas_lt q hq) hle
  pairs_lt := fun b hb =>
    ⟨Nat.lt_of_lt_of_le (h.pairs_lt b hb).1 hle, Nat.lt_of_lt_of_le (h.pairs_lt b hb).2 hle⟩
  open_lt := fun b hb => Nat.lt_of_lt_of_le (h.open_lt b hb) hle
  marks_lt := fun q hq => Nat.lt_of_lt_of_le (h.marks_lt q hq) hle

theorem Below.mark (h : k.Below p) {n : Nat} (hp : p < n) : (k.mark p).Below n := by
  have h := h.of_le (Nat.le_of_lt hp)
  unfold Sketch.mark
  split
  · exact { h with marks_lt := List.forall_mem_cons.mpr ⟨hp, h.marks_lt⟩ }
  · exact h

theorem Below.close (h : k.Below n) {c : Char} (hp : p < n) : (k.close c p).Below n := by
  unfold Sketch.close
  split
  · exact h
  · next opener opened rest hopen =>
    have hopened : opened < n := h.open_lt (opener, opened) (hopen ▸ List.mem_cons_self)
    have hrest : ∀ b ∈ rest, b.2 < n := fun b hb =>
      h.open_lt b (hopen ▸ List.mem_cons_of_mem _ hb)
    dsimp only
    split
    · exact { h with
        open_lt := hrest
        pairs_lt := List.forall_mem_cons.mpr ⟨⟨hopened, hp⟩, h.pairs_lt⟩ }
    · exact { h with open_lt := hrest }

theorem Below.add (h : k.Below p) (s : Sight) : (k.add p s).Below (p + 1) := by
  have hp : p < p + 1 := Nat.lt_succ_self p
  cases s with
  | hidden => exact h.of_le (Nat.le_succ p)
  | text => exact h.mark hp
  | code c =>
    have hmarked : (if c = ',' then k else k.mark p).Below (p + 1) := by
      split
      · exact h.of_le (Nat.le_succ p)
      · exact h.mark hp
    have hopen := (h.of_le (Nat.le_succ p)).open_lt
    unfold Sketch.add
    dsimp only
    split
    · exact { hmarked with open_lt := List.forall_mem_cons.mpr ⟨hp, hopen⟩ }
    · split
      · exact hmarked.close hp
      · split
        · exact { hmarked with
            commas_lt := List.forall_mem_cons.mpr
              ⟨hp, (h.of_le (Nat.le_succ p)).commas_lt⟩ }
        · exact hmarked

theorem Below.run (h : k.Below p) (l : List Sight) : (k.run p l).Below (p + l.length) := by
  induction l generalizing k p with
  | nil => exact h
  | cons s l ih =>
    rw [List.length_cons, Nat.add_comm l.length, ← Nat.add_assoc]
    exact ih (h.add s)

/-- All places that a sketch knows of are in its text. -/
theorem below_sketch (l : List Sight) : (sketch l).Below l.length := by
  have h := (below_empty 0).run l
  rwa [Nat.zero_add] at h

variable (φ : Nat → Nat)

theorem mark_map (k : Sketch) (p : Nat) : (k.mark p).map φ = (k.map φ).mark (φ p) := by
  have hempty : (k.map φ).openBrackets.isEmpty = k.openBrackets.isEmpty := List.isEmpty_map
  rw [mark, mark, hempty]
  split <;> rfl

theorem close_map (k : Sketch) (c : Char) (p : Nat) :
    (k.close c p).map φ = (k.map φ).close c (φ p) := by
  have hopen : (k.map φ).openBrackets = k.openBrackets.map (Prod.map id φ) := rfl
  rw [close, close, hopen]
  cases k.openBrackets with
  | nil => rfl
  | cons b rest =>
    obtain ⟨opener, opened⟩ := b
    simp only [List.map_cons, Prod.map, id, List.map_eq_nil_iff]
    split <;> rfl

/-- A sketch does not depend on where its text stands. -/
theorem add_map (k : Sketch) (p : Nat) (s : Sight) :
    (k.add p s).map φ = (k.map φ).add (φ p) s := by
  cases s with
  | hidden => rfl
  | text => exact mark_map φ k p
  | code c =>
    have hmarked : (if c = ',' then k else k.mark p).map φ =
        if c = ',' then k.map φ else (k.map φ).mark (φ p) := by
      split
      · rfl
      · exact mark_map φ k p
    have hopen : (k.map φ).openBrackets = [] ↔ k.openBrackets = [] := List.map_eq_nil_iff
    unfold add
    dsimp only
    simp only [← hmarked, hopen]
    split
    · rfl
    · split
      · exact close_map φ _ c p
      · split <;> rfl

variable {φ}

theorem run_map {n : Nat} (hφ : ∀ q, p ≤ q → φ q = q + n) (k : Sketch) (l : List Sight) :
    (k.run p l).map φ = (k.map φ).run (p + n) l := by
  induction l generalizing k p with
  | nil => rfl
  | cons s l ih =>
    rw [run, run, ih (fun q hq => hφ q (Nat.le_of_succ_le hq)), add_map, hφ p (Nat.le_refl p),
      Nat.add_right_comm]

/-- Places that stay where they are. -/
theorem Below.map_eq {n : Nat} (h : k.Below n) (hφ : ∀ q, q < n → φ q = q) : k.map φ = k := by
  have hfixed : ∀ {α : Type} (f : α → α) (l : List α), (∀ a ∈ l, f a = a) → l.map f = l :=
    fun f l hl => (List.map_congr_left hl).trans (List.map_id l)
  have hcommas : k.commas.map φ = k.commas := hfixed _ _ fun q hq => hφ q (h.commas_lt q hq)
  have hpairs : k.pairs.map (Prod.map φ φ) = k.pairs := hfixed _ _ fun b hb =>
    Prod.ext (hφ b.1 (h.pairs_lt b hb).1) (hφ b.2 (h.pairs_lt b hb).2)
  have hopen : k.openBrackets.map (Prod.map id φ) = k.openBrackets := hfixed _ _ fun b hb =>
    Prod.ext rfl (hφ b.2 (h.open_lt b hb))
  have hmarks : k.marks.map φ = k.marks := hfixed _ _ fun q hq => hφ q (h.marks_lt q hq)
  rw [map, hcommas, hpairs, hopen, hmarks]

/-! ## Texts in turn -/

theorem mark_after (k earlier : Sketch) (p : Nat) :
    (k.after earlier).mark p = (k.mark p).after earlier := by
  have hopen : (k.after earlier).openBrackets = k.openBrackets := rfl
  rw [mark, mark, hopen]
  split <;> rfl

theorem close_after (k earlier : Sketch) (c : Char) (p : Nat) :
    (k.after earlier).close c p = (k.close c p).after earlier := by
  have hopen : (k.after earlier).openBrackets = k.openBrackets := rfl
  rw [close, close, hopen]
  cases k.openBrackets with
  | nil => rfl
  | cons b rest =>
    dsimp only
    split <;> rfl

/-- What was known before has no say in what a sight adds, the open brackets apart. -/
theorem add_after (k earlier : Sketch) (p : Nat) (s : Sight) :
    (k.after earlier).add p s = (k.add p s).after earlier := by
  cases s with
  | hidden => rfl
  | text => exact mark_after k earlier p
  | code c =>
    have hmarked : (if c = ',' then k.after earlier else (k.after earlier).mark p) =
        (if c = ',' then k else k.mark p).after earlier := by
      split
      · rfl
      · exact mark_after k earlier p
    have hopen : (k.after earlier).openBrackets = k.openBrackets := rfl
    unfold add
    dsimp only
    rw [hmarked, hopen]
    split
    · rfl
    · split
      · exact close_after _ earlier c p
      · split <;> rfl

theorem run_after (k earlier : Sketch) (p : Nat) (l : List Sight) :
    (k.after earlier).run p l = (k.run p l).after earlier := by
  induction l generalizing k p with
  | nil => rfl
  | cons s l ih => rw [run, run, add_after, ih]

/-- **Texts in turn**: after a text whose brackets all close, the next text is sketched as it is on
its own. -/
theorem sketch_append {l : List Sight} (h : (sketch l).openBrackets = []) (m : List Sight) :
    sketch (l ++ m) = ((sketch m).map (l.length + ·)).after (sketch l) := by
  have hmoved : (sketch m).map (l.length + ·) = empty.run l.length m := by
    have hplace : ∀ q, 0 ≤ q → l.length + q = q + l.length := fun q _ => Nat.add_comm _ q
    have hmap := run_map hplace empty m
    rwa [Nat.zero_add] at hmap
  have hempty : sketch l = empty.after (sketch l) := by
    rw [after, empty, ← h]
    rfl
  rw [hmoved, ← run_after, ← hempty, sketch, run_append, Nat.zero_add]
  rfl

/-! ## Inside brackets -/

/-- What is shown inside brackets neither marks nor separates arguments. -/
theorem add_inside {inner outer : List (Char × Nat)} {s : Sight} {e : Nat}
    (hopen : k.openBrackets = inner ++ outer) (houter : outer ≠ [])
    (hlevel : levelAfter inner.length s = some e) :
    ∃ inner' : List (Char × Nat), inner'.length = e ∧
      k.add p s = { k with openBrackets := inner' ++ outer } := by
  have hne : k.openBrackets ≠ [] := by
    rw [hopen]
    exact List.append_ne_nil_of_right_ne_nil _ houter
  have hmark : k.mark p = k := if_neg (by rw [List.isEmpty_iff]; exact hne)
  have hsame : k = { k with openBrackets := inner ++ outer } := by rw [← hopen]
  cases s with
  | hidden => exact ⟨inner, Option.some.inj hlevel, hsame⟩
  | text => exact ⟨inner, Option.some.inj hlevel, hmark.trans hsame⟩
  | code c =>
    have hmarked : (if c = ',' then k else k.mark p) = k := by
      rw [hmark]
      exact ite_self k
    simp only [levelAfter] at hlevel
    unfold add
    simp only [hmarked, hne, and_false, if_false]
    split at hlevel
    · next hc =>
      rw [if_pos hc]
      refine ⟨(c, p) :: inner, Option.some.inj hlevel, ?_⟩
      rw [hopen]
      rfl
    · next hc =>
      rw [if_neg hc]
      split at hlevel
      · next hc' =>
        rw [if_pos hc']
        cases inner with
        | nil => cases hlevel
        | cons b inner =>
          refine ⟨inner, Option.some.inj hlevel, ?_⟩
          -- brackets stay open around it, so it completes no pair
          have hrest : inner ++ outer ≠ [] := List.append_ne_nil_of_right_ne_nil _ houter
          rw [close, hopen]
          exact if_neg fun h => hrest h.2.2
      · next hc' =>
        rw [if_neg hc']
        exact ⟨inner, Option.some.inj hlevel, hsame⟩

theorem run_within {inner outer : List (Char × Nat)} {e : Nat}
    (hopen : k.openBrackets = inner ++ outer) (houter : outer ≠ [])
    (hlevel : level inner.length l = some e) :
    ∃ inner' : List (Char × Nat), inner'.length = e ∧
      k.run p l = { k with openBrackets := inner' ++ outer } := by
  induction l generalizing k p inner with
  | nil =>
    refine ⟨inner, Option.some.inj hlevel, ?_⟩
    rw [← hopen]
    rfl
  | cons s l ih =>
    rw [level_cons] at hlevel
    obtain ⟨d, hd, hlevel⟩ := Option.bind_eq_some_iff.mp hlevel
    obtain ⟨inner', rfl, hadd⟩ := add_inside (p := p) hopen houter hd
    rw [run, hadd]
    exact ih rfl hlevel

/-- **What closes inside brackets leaves no trace.** -/
theorem run_inside (hopen : k.openBrackets ≠ []) (hlevel : level 0 l = some 0) :
    k.run p l = k := by
  have hsplit : k.openBrackets = [] ++ k.openBrackets := rfl
  obtain ⟨inner, hinner, hrun⟩ := run_within (p := p) hsplit hopen hlevel
  rw [List.length_eq_zero_iff.mp hinner] at hrun
  exact hrun

/-- What stands after it is only moved. -/
theorem sketch_insert {u x w : List Sight} (hopen : (sketch u).openBrackets ≠ [])
    (hx : level 0 x = some 0) :
    sketch (u ++ (x ++ w)) = (sketch (u ++ w)).map (movedOffset u.length x.length) := by
  have hfixed : (sketch u).map (movedOffset u.length x.length) = sketch u :=
    (below_sketch u).map_eq fun q hq => if_pos hq
  have hmoved : ∀ q, u.length ≤ q → movedOffset u.length x.length q = q + x.length :=
    fun q hq => if_neg (Nat.not_lt_of_le hq)
  have hu : ∀ y, sketch (u ++ y) = (sketch u).run u.length y := by
    intro y
    rw [sketch, run_append, Nat.zero_add]
    rfl
  rw [hu, hu, run_append, run_inside hopen hx, run_map hmoved, hfixed]

/-! ## Pairs of braces -/

theorem mem_mark_pairs {b : Nat × Nat} : b ∈ (k.mark p).pairs ↔ b ∈ k.pairs := by
  unfold mark
  split <;> rfl

theorem mark_openBrackets (k : Sketch) (p : Nat) : (k.mark p).openBrackets = k.openBrackets := by
  unfold mark
  split <;> rfl

/-- A new pair of braces closes at its place, and nothing else is open there. -/
theorem mem_add_pairs {s : Sight} {b : Nat × Nat} (h : b ∈ (k.add p s).pairs) :
    b ∈ k.pairs ∨ s = .code '}' ∧ k.openBrackets = [('{', b.1)] ∧ b.2 = p := by
  cases s with
  | hidden => exact .inl h
  | text => exact .inl (mem_mark_pairs.mp h)
  | code c =>
    -- marking what is seen adds no pair, and opens and closes nothing
    have hmarked : b ∈ (if c = ',' then k else k.mark p).pairs → b ∈ k.pairs := by
      split
      · exact id
      · exact mem_mark_pairs.mp
    have hopen : (if c = ',' then k else k.mark p).openBrackets = k.openBrackets := by
      split
      · rfl
      · exact mark_openBrackets k p
    unfold add at h
    dsimp only at h
    split at h
    · exact .inl (hmarked h)
    · split at h
      · unfold close at h
        split at h
        · exact .inl (hmarked h)
        · next opener opened rest hrest =>
          rw [hopen] at hrest
          dsimp only at h
          split at h
          · next hpair =>
            obtain ⟨rfl, rfl, rfl⟩ := hpair
            rcases List.mem_cons.mp h with rfl | h
            · exact .inr ⟨rfl, hrest, rfl⟩
            · exact .inl (hmarked h)
          · exact .inl (hmarked h)
      · split at h <;> exact .inl (hmarked h)

theorem sketch_concat (l : List Sight) (s : Sight) :
    sketch (l ++ [s]) = (sketch l).add l.length s := by
  rw [sketch, run_append, Nat.zero_add]
  rfl

/-- Where a pair closes, its opening brace is the only open bracket. -/
theorem pair_spec {b : Nat × Nat} (h : b ∈ (sketch l).pairs) :
    l[b.2]? = some (.code '}') ∧ (sketch (l.take b.2)).openBrackets = [('{', b.1)] := by
  induction l using List.reverseRecOn with
  | nil => cases h
  | append_singleton l s ih =>
    rw [sketch_concat] at h
    rcases mem_add_pairs h with h | ⟨rfl, hopen, hplace⟩
    · obtain ⟨hget, hopen⟩ := ih h
      have hlt := ((below_sketch l).pairs_lt b h).2
      rw [List.getElem?_append_left hlt, List.take_append_of_le_length (Nat.le_of_lt hlt)]
      exact ⟨hget, hopen⟩
    · rw [hplace, List.getElem?_concat_length, List.take_left]
      exact ⟨rfl, hopen⟩

/-- So it is open at any place before from which nothing more is shown. -/
theorem openBrackets_of_mem_pairs {u g rest : List Sight} {b : Nat × Nat}
    (h : b ∈ (sketch (u ++ (g ++ rest))).pairs) (hg : ∀ s ∈ g, s = .hidden)
    (hplace : b.2 = u.length + g.length) : (sketch u).openBrackets = [('{', b.1)] := by
  have htake : (u ++ (g ++ rest)).take b.2 = u ++ g := by
    rw [← List.append_assoc, List.take_left' (by rw [List.length_append, hplace])]
  have hsketch : sketch (u ++ g) = sketch u := by
    rw [sketch, run_append]
    exact run_hidden hg _ _
  obtain ⟨-, hopen⟩ := pair_spec h
  rwa [htake, hsketch] at hopen

/-- Moving places in order does not change which pairs are whole arguments. -/
theorem isWhole_map (hφ : ∀ p q, φ p < φ q ↔ p < q) (k : Sketch) (b : Nat × Nat) :
    (k.map φ).isWhole (Prod.map φ φ b) = k.isWhole b := by
  have hcount : (k.map φ).marks = k.marks.map φ := rfl
  have hcommas : (k.map φ).commas = k.commas.map φ := rfl
  rw [isWhole, isWhole, hcount, hcommas, List.filter_map, List.length_map]
  congr 2
  refine List.filter_congr fun m _ => ?_
  simp only [Function.comp_def, List.all_map, Prod.map_fst, Prod.map_snd, hφ]

theorem wholePairs_map (hφ : ∀ p q, φ p < φ q ↔ p < q) (k : Sketch) :
    (k.map φ).wholePairs = k.wholePairs.map (Prod.map φ φ) := by
  have hpairs : (k.map φ).pairs = k.pairs.map (Prod.map φ φ) := rfl
  rw [wholePairs, wholePairs, hpairs, List.filter_map]
  congr 2
  funext b
  exact isWhole_map hφ k b

theorem wholePair?_eq (k : Sketch) : k.wholePair? = k.wholePairs.head? := List.head?_filter.symm

theorem wholePair?_map (hφ : ∀ p q, φ p < φ q ↔ p < q) (k : Sketch) :
    (k.map φ).wholePair? = k.wholePair?.map (Prod.map φ φ) := by
  rw [wholePair?_eq, wholePairs_map hφ, List.head?_map, wholePair?_eq]

/-- **Inside brackets** one text that closes can take the place of another one. A last whole argument
around it is still the last one, and closes right after what followed the text before. -/
theorem wholePair?_exchange {u d x v : List Sight} (hopen : (sketch u).openBrackets ≠ [])
    (hd : level 0 d = some 0) (hx : level 0 x = some 0) {b : Nat × Nat}
    (hb : (sketch (u ++ (d ++ v))).wholePair? = some b) (hfirst : b.1 < u.length)
    (hlast : u.length + d.length ≤ b.2) :
    (sketch (u ++ (x ++ v))).wholePair? =
      some (b.1, u.length + x.length + (b.2 - (u.length + d.length))) := by
  have hmono : ∀ {n p q : Nat}, movedOffset u.length n p < movedOffset u.length n q ↔ p < q :=
    movedOffset_lt_iff
  rw [sketch_insert hopen hd, wholePair?_map fun p q => hmono] at hb
  obtain ⟨⟨p, q⟩, hpair, hmoved⟩ := Option.map_eq_some_iff.mp hb
  obtain ⟨hp, hq⟩ := Prod.mk.inj hmoved
  rw [sketch_insert hopen hx, wholePair?_map fun p q => hmono, hpair]
  have hp' : movedOffset u.length x.length p = b.1 := movedOffset_of_eq_of_lt hp hfirst _
  have hq' : movedOffset u.length x.length q =
      u.length + x.length + (b.2 - (u.length + d.length)) := movedOffset_of_eq_of_le hq hlast _
  exact congrArg some (Prod.ext hp' hq')

end Sketch

/-! ## Layouts -/

namespace BracePair

theorem foldl_max_le {l : List Nat} {a m : Nat} :
    l.foldl max a ≤ m ↔ a ≤ m ∧ ∀ x ∈ l, x ≤ m := by
  induction l generalizing a with
  | nil => simp
  | cons x l ih => rw [List.foldl_cons, ih, Nat.max_le, List.forall_mem_cons, and_assoc]

theorem lt_foldl_min {l : List Nat} {a m : Nat} :
    m < l.foldl min a ↔ m < a ∧ ∀ x ∈ l, m < x := by
  induction l generalizing a with
  | nil => simp
  | cons x l ih => rw [List.foldl_cons, ih, Nat.lt_min, List.forall_mem_cons, and_assoc]

/-- Whether a pair is a whole argument can be told from the sketch. -/
theorem isArgument_eq {o : Outline} {n : Nat} (h : o.sketch.Below n) (b : BracePair) :
    b.isArgument o n = o.sketch.isWhole (b.opened, b.closed) := by
  rw [isArgument, Sketch.isWhole]
  dsimp only [segmentAround]
  have hmarks : o.sketch.marks = o.marks := rfl
  have hcommas : o.sketch.commas = o.commas := rfl
  rw [hmarks, hcommas]
  congr 2
  refine List.filter_congr fun m hm => ?_
  have hlt : m < n := h.marks_lt m hm
  rw [Bool.eq_iff_iff]
  simp only [Bool.and_eq_true, decide_eq_true_eq, foldl_max_le, lt_foldl_min, List.mem_map,
    List.mem_filter, List.all_eq_true]
  constructor
  · rintro ⟨⟨-, hfirst⟩, -, hstop⟩ c hc
    exact ⟨fun hlt => hfirst _ ⟨c, ⟨hc, hlt⟩, rfl⟩, fun hlt => hstop c ⟨hc, hlt⟩⟩
  · intro hall
    refine ⟨⟨Nat.zero_le m, ?_⟩, hlt, fun c hc => (hall c hc.1).2 hc.2⟩
    rintro _ ⟨c, ⟨hc, hlt⟩, rfl⟩
    exact (hall c hc).1 hlt

end BracePair

namespace Outline

/-- Without a last significant character nothing is known at all. -/
theorem foldl_add_of_last {vs : List Visit} {o : Outline} (h : (vs.foldl add o).last = none) :
    vs.foldl add o = o := by
  induction vs generalizing o with
  | nil => rfl
  | cons v vs ih =>
    rw [List.foldl_cons] at h ⊢
    have hsame := ih h
    rw [hsame] at h ⊢
    cases hs : v.isSignificant with
    | false => exact add_of_not_isSignificant hs
    | true =>
      rw [add_last_of_isSignificant hs] at h
      cases h

end Outline

namespace ArgumentLayout

variable (base : Int) (x : Text)

/-- The commas of a layout are those of the sketch. -/
theorem commas_eq : (ofText base x).commas =
    (sketch (sights x)).commas.reverse.map fun (c : Nat) => base + (c : Int) := by
  rw [← Outline.sketch_ofText, ofText, ofOutline]
  split
  · next hlast =>
    rw [Outline.foldl_add_of_last hlast]
    rfl
  · rfl

/-- **The object literals** are the pairs of braces that are whole arguments. -/
theorem objects_eq : (ofText base x).objects.map (fun o => (o.openBrace, o.closeBrace)) =
    (sketch (sights x)).wholePairs.reverse.map fun b => (base + b.1, base + b.2) := by
  have hbelow := Sketch.below_sketch (sights x)
  rw [length_sights] at hbelow
  rw [← Outline.sketch_ofText] at hbelow ⊢
  rw [ofText, ofOutline]
  split
  · next hlast =>
    rw [Outline.foldl_add_of_last hlast]
    rfl
  · generalize (Scanner.start x).visits.foldl Outline.add .empty = o at hbelow ⊢
    have hpairs : o.sketch.pairs = o.braces.map fun b => (b.opened, b.closed) := rfl
    have hwhole : (o.sketch.isWhole ∘ fun b : BracePair => (b.opened, b.closed)) =
        fun b => b.isArgument o x.length := by
      funext b
      exact (BracePair.isArgument_eq hbelow b).symm
    rw [Sketch.wholePairs, hpairs, List.filter_map, hwhole, ← List.map_reverse,
      ← List.filter_reverse, List.map_map, List.map_map]
    rfl

/-- The last object literal is the last of them. -/
theorem lastObject?_eq : (ofText base x).lastObject?.map (fun o => (o.openBrace, o.closeBrace)) =
    (sketch (sights x)).wholePair?.map fun b => (base + b.1, base + b.2) := by
  rw [lastObject?, ← List.getLast?_map, objects_eq, List.getLast?_map, List.getLast?_reverse,
    Sketch.wholePair?_eq]

variable {base x} in
theorem wholePair?_of_lastObject? {b : BracePair}
    (h : (ofText base x).lastObject? = some (b.toObject base)) :
    (sketch (sights x)).wholePair? = some (b.opened, b.closed) := by
  have hmap := lastObject?_eq base x
  rw [h, eq_comm] at hmap
  obtain ⟨⟨p, q⟩, hpair, heq⟩ := Option.map_eq_some_iff.mp hmap
  simp only [BracePair.toObject, Prod.mk.injEq, Int.add_right_inj, Int.ofNat_inj] at heq
  rw [hpair, heq.1, heq.2]

end ArgumentLayout
end SourceStamp
