import SourceStamp.Log.Context

/-!
# Merging contexts

What a context knows after the metadata of a call are merged into it.

- `Fields.get?_erase_of_ne`, `Fields.get?_set_of_ne`: erasing or setting a field leaves the others.
- `Fields.erase_override`, `Fields.get?_override_of_append`: erasing and looking up a field of
  merged metadata.
- `Text.distinct_eq_self_iff`: a list of labels is kept as it is exactly when none repeats.
- `Context.merged_ofMetadata`: only tags and metadata change, and of the tags only repeated ones.
-/

namespace SourceStamp

/-! ## Fields -/

namespace Fields

theorem erase_append (fs gs : Fields) (n : Text) : (fs ++ gs).erase n = fs.erase n ++ gs.erase n :=
  List.filter_append ..

theorem erase_cons_self (n : Text) (v : Value) (fs : Fields) :
    erase ((n, v) :: fs) n = fs.erase n := by
  simp [erase]

theorem erase_cons_of_ne {k n : Text} (hne : k ≠ n) (v : Value) (fs : Fields) :
    erase ((k, v) :: fs) n = (k, v) :: fs.erase n := by
  simp [erase, hne]

theorem ne_of_mem_erase {fs : Fields} {n : Text} {f : Text × Value} (hf : f ∈ fs.erase n) :
    f.1 ≠ n := by
  simpa using (List.mem_filter.mp hf).2

theorem get?_erase_of_ne {k n : Text} (hne : k ≠ n) (fs : Fields) :
    (fs.erase n).get? k = fs.get? k := by
  induction fs with
  | nil => rfl
  | cons f fs ih =>
    obtain ⟨a, v⟩ := f
    by_cases ha : a = n
    · subst ha
      have hka : (k == a) = false := beq_eq_false_iff_ne.mpr hne
      rw [erase_cons_self, ih]
      simp [get?, List.lookup_cons, hka]
    · rw [erase_cons_of_ne ha]
      simp only [get?, List.lookup_cons] at ih ⊢
      rw [ih]

/-- Setting a field and erasing it is erasing it. -/
theorem erase_set_self (fs : Fields) (n : Text) (v : Value) :
    (fs.set n v).erase n = fs.erase n := by
  induction fs with
  | nil => exact erase_cons_self n v []
  | cons f fs ih =>
    obtain ⟨k, old⟩ := f
    rw [set]
    split
    · next hk =>
      subst hk
      rw [erase_cons_self, erase_cons_self]
    · next hk => rw [erase_cons_of_ne hk, erase_cons_of_ne hk, ih]

/-- Erasing a field does not get in the way of setting another. -/
theorem erase_set_of_ne {k n : Text} (hne : k ≠ n) (fs : Fields) (v : Value) :
    (fs.set k v).erase n = (fs.erase n).set k v := by
  induction fs with
  | nil => exact erase_cons_of_ne hne v []
  | cons f fs ih =>
    obtain ⟨a, old⟩ := f
    rw [set]
    split
    · next ha =>
      subst ha
      rw [erase_cons_of_ne hne, erase_cons_of_ne hne, set, if_pos rfl]
    · next ha =>
      by_cases han : a = n
      · subst han
        rw [erase_cons_self, erase_cons_self, ih]
      · rw [erase_cons_of_ne han, erase_cons_of_ne han, set, if_neg ha, ih]

/-- A field is erased from merged fields by erasing it from both. -/
theorem erase_override (fs other : Fields) (n : Text) :
    (fs.override other).erase n = (fs.erase n).override (other.erase n) := by
  induction other generalizing fs with
  | nil => rfl
  | cons f other ih =>
    obtain ⟨k, v⟩ := f
    show ((fs.set k v).override other).erase n = _
    rw [ih]
    by_cases hk : k = n
    · subst hk
      rw [erase_set_self, erase_cons_self]
    · rw [erase_set_of_ne hk, erase_cons_of_ne hk]
      rfl

theorem get?_set_self (fs : Fields) (n : Text) (v : Value) : (fs.set n v).get? n = some v := by
  induction fs with
  | nil => simp [set, get?]
  | cons f fs ih =>
    obtain ⟨k, old⟩ := f
    rw [set]
    split
    · next hk => simp [get?, hk]
    · next hk =>
      have hne : (n == k) = false := beq_eq_false_iff_ne.mpr (Ne.symm hk)
      simpa [get?, List.lookup_cons, hne] using ih

theorem get?_set_of_ne {k n : Text} (hne : k ≠ n) (fs : Fields) (v : Value) :
    (fs.set k v).get? n = fs.get? n := by
  have hkn : (n == k) = false := beq_eq_false_iff_ne.mpr (Ne.symm hne)
  induction fs with
  | nil => simp [set, get?, List.lookup_cons, hkn]
  | cons f fs ih =>
    obtain ⟨a, old⟩ := f
    rw [set]
    split
    · next ha =>
      subst ha
      simp [get?, List.lookup_cons, hkn]
    · simp only [get?, List.lookup_cons] at ih ⊢
      rw [ih]

/-- Setting a field brings in no field of another name. -/
theorem ne_of_mem_set {k n : Text} (hne : k ≠ n) {fs : Fields} (hfs : ∀ f ∈ fs, f.1 ≠ n)
    (v : Value) : ∀ f ∈ fs.set k v, f.1 ≠ n := by
  induction fs with
  | nil =>
    intro f hf
    rw [List.mem_singleton.mp hf]
    exact hne
  | cons f fs ih =>
    obtain ⟨a, old⟩ := f
    rw [List.forall_mem_cons] at hfs
    rw [set]
    split
    · exact List.forall_mem_cons.mpr ⟨hfs.1, hfs.2⟩
    · exact List.forall_mem_cons.mpr ⟨hfs.1, ih hfs.2⟩

/-- Merging fields of other names leaves a field as it is. -/
theorem get?_override_of_forall_ne {other : Fields} {n : Text} (h : ∀ f ∈ other, f.1 ≠ n)
    (fs : Fields) : (fs.override other).get? n = fs.get? n := by
  induction other generalizing fs with
  | nil => rfl
  | cons f other ih =>
    rw [List.forall_mem_cons] at h
    exact (ih h.2 (fs.set f.1 f.2)).trans (get?_set_of_ne h.1 fs f.2)

/-- A field that is merged has the value of its last occurrence. -/
theorem get?_override_of_append {after : Fields} {n : Text} (h : ∀ f ∈ after, f.1 ≠ n)
    (fs before : Fields) (v : Value) :
    (fs.override (before ++ (n, v) :: after)).get? n = some v := by
  have hsplit : fs.override (before ++ (n, v) :: after) =
      ((fs.override before).set n v).override after := List.foldl_append
  rw [hsplit, get?_override_of_forall_ne h, get?_set_self]

end Fields

/-! ## Labels -/

theorem Text.distinct_sublist (ts : List Text) : (Text.distinct ts).Sublist ts := by
  cases ts with
  | nil => exact List.Sublist.refl _
  | cons t ts =>
    rw [Text.distinct, List.eraseDups_cons]
    exact ((Text.distinct_sublist _).trans List.filter_sublist).cons_cons t
termination_by ts.length
decreasing_by exact Nat.lt_succ_of_le (List.length_filter_le _ _)

theorem Text.nodup_distinct (ts : List Text) : (Text.distinct ts).Nodup := by
  cases ts with
  | nil => exact List.nodup_nil
  | cons t ts =>
    rw [Text.distinct, List.eraseDups_cons, List.nodup_cons]
    constructor
    · simp [List.mem_eraseDups]
    · exact Text.nodup_distinct _
termination_by ts.length
decreasing_by exact Nat.lt_succ_of_le (List.length_filter_le _ _)

/-- Labels of which none repeats stay as they are, and no others do. -/
theorem Text.distinct_eq_self_iff (ts : List Text) : Text.distinct ts = ts ↔ ts.Nodup := by
  constructor
  · intro h
    exact h ▸ Text.nodup_distinct ts
  · intro h
    -- both have the same members, each once
    have hperm : (Text.distinct ts).Perm ts :=
      (List.perm_ext_iff_of_nodup (Text.nodup_distinct ts) h).mpr fun _ => List.mem_eraseDups
    exact (Text.distinct_sublist ts).eq_of_length hperm.length_eq

/-! ## Contexts -/

/-- Metadata refine a context in its metadata; repeated tags go. -/
theorem Context.merged_ofMetadata (c : Context) (metadata : Fields) :
    c.merged (Context.ofMetadata metadata) =
      { c with tags := Text.distinct c.tags, metadata := c.metadata.override metadata } := by
  simp [Context.merged, Context.ofMetadata, present?]

end SourceStamp
