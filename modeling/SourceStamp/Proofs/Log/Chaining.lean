import Mathlib.Data.List.Nodup
import SourceStamp.Log.Logger
import SourceStamp.Proofs.Log.Merging

/-!
# Chains of contexts

A logger refines its context step by step. It makes no difference whether the steps are taken one
after the other or are merged beforehand.

- `Fields.override_assoc`: of merged fields each stays in its first place with its last value,
  however the merges are grouped.
- `Text.distinct_distinct_append`, `Text.distinct_append_distinct`: so does each tag, which is kept
  once.
- `Context.merged_assoc`: merging contexts is associative.
- `Logger.withContext_chain`: a chain of loggers ends where one step with the merged contexts does.

The fields in the middle of three have to be fields of distinct names, as those of a mapping are: of
two fields of one name, the last one wins in a merge, and the first one is set.
-/

namespace SourceStamp

/-! ## Fields -/

namespace Fields

/-- The names of fields, in their order. -/
def names (fields : Fields) : List Text := fields.map (·.1)

@[simp] theorem names_nil : names [] = [] := rfl

@[simp] theorem names_cons (f : Text × Value) (fs : Fields) :
    names (f :: fs) = f.1 :: names fs := rfl

variable {fs other : Fields} {k : Text}

/-- Setting a field keeps its name in its place, or puts a new name at the end. -/
theorem names_set (fs : Fields) (k : Text) (v : Value) :
    (fs.set k v).names = if k ∈ fs.names then fs.names else fs.names ++ [k] := by
  induction fs with
  | nil => rfl
  | cons f fs ih =>
    obtain ⟨a, old⟩ := f
    rw [set]
    by_cases ha : a = k
    · subst ha
      simp
    · rw [if_neg ha, names_cons, ih, names_cons]
      by_cases hk : k ∈ names fs
      · simp [hk]
      · simp [hk, Ne.symm ha]

theorem mem_names_set_self (fs : Fields) (k : Text) (v : Value) : k ∈ (fs.set k v).names := by
  rw [names_set]
  split
  · next hk => exact hk
  · exact List.mem_append_right _ (List.mem_singleton_self k)

theorem mem_names_set (h : k ∈ fs.names) (n : Text) (v : Value) : k ∈ (fs.set n v).names := by
  rw [names_set]
  split
  · exact h
  · exact List.mem_append_left _ h

theorem nodup_names_set (h : fs.names.Nodup) (k : Text) (v : Value) :
    (fs.set k v).names.Nodup := by
  rw [names_set]
  split
  · exact h
  · next hk => exact h.append (List.nodup_singleton k) (List.disjoint_singleton.mpr hk)

theorem nodup_names_override (h : fs.names.Nodup) (other : Fields) :
    (fs.override other).names.Nodup := by
  induction other generalizing fs with
  | nil => exact h
  | cons f other ih => exact ih (nodup_names_set h f.1 f.2)

theorem override_cons (fs : Fields) (f : Text × Value) (other : Fields) :
    fs.override (f :: other) = (fs.set f.1 f.2).override other := rfl

theorem set_set (fs : Fields) (k : Text) (v w : Value) : (fs.set k v).set k w = fs.set k w := by
  induction fs with
  | nil => simp [set]
  | cons f fs ih =>
    obtain ⟨a, old⟩ := f
    rw [set, set]
    by_cases ha : a = k
    · simp [set, ha]
    · simp [set, ha, ih]

/-- Setting a field that is there commutes with setting another one. -/
theorem set_comm (h : k ∈ fs.names) {n : Text} (hne : n ≠ k) (v w : Value) :
    (fs.set n w).set k v = (fs.set k v).set n w := by
  induction fs with
  | nil => cases h
  | cons f fs ih =>
    obtain ⟨a, old⟩ := f
    by_cases hak : a = k
    · subst hak
      simp [set, Ne.symm hne]
    · have hk : k ∈ names fs := (List.mem_cons.mp h).resolve_left (Ne.symm hak)
      by_cases han : a = n
      · subst han
        simp [set, hak]
      · simp [set, hak, han, ih hk]

/-- A field that is there may be set before other ones are merged. -/
theorem set_override (h : k ∈ fs.names) (hother : k ∉ other.names) (v : Value) :
    (fs.override other).set k v = (fs.set k v).override other := by
  induction other generalizing fs with
  | nil => rfl
  | cons f other ih =>
    obtain ⟨n, w⟩ := f
    obtain ⟨hne, hother⟩ := List.ne_and_not_mem_of_not_mem_cons hother
    rw [override_cons, override_cons, ih (mem_names_set h n w) hother,
      set_comm h (Ne.symm hne)]

/-- Setting a field in what is merged sets it in the outcome. -/
theorem override_set (h : other.names.Nodup) (fs : Fields) (k : Text) (v : Value) :
    fs.override (other.set k v) = (fs.override other).set k v := by
  induction other generalizing fs with
  | nil => rfl
  | cons f other ih =>
    obtain ⟨a, old⟩ := f
    obtain ⟨ha, hother⟩ := List.nodup_cons.mp h
    rw [set]
    split
    · next hak =>
      subst hak
      -- no later field has the name, so the last value is the one set
      rw [override_cons, override_cons, set_override (mem_names_set_self fs a old) ha, set_set]
    · exact ih hother (fs.set a old)

/-- **Merging fields is associative.** -/
theorem override_assoc {gs : Fields} (h : gs.names.Nodup) (fs hs : Fields) :
    (fs.override gs).override hs = fs.override (gs.override hs) := by
  induction hs generalizing gs with
  | nil => rfl
  | cons f hs ih =>
    rw [override_cons, override_cons, ← override_set h, ih (nodup_names_set h f.1 f.2)]

end Fields

/-! ## Labels -/

namespace Text

theorem distinct_distinct (ts : List Text) : distinct (distinct ts) = distinct ts :=
  (distinct_eq_self_iff _).mpr (nodup_distinct ts)

/-- Choosing among labels leaves those that repeat to repeat. -/
theorem distinct_filter (p : Text → Bool) (ts : List Text) :
    distinct (ts.filter p) = (distinct ts).filter p := by
  cases ts with
  | nil => rfl
  | cons t ts =>
    have ih := distinct_filter p (ts.filter fun u => !u == t)
    have hrest : distinct (t :: ts) = t :: distinct (ts.filter fun u => !u == t) :=
      List.eraseDups_cons
    rw [hrest]
    by_cases ht : p t = true
    · have hcons : distinct (t :: ts.filter p) =
          t :: distinct ((ts.filter p).filter fun u => !u == t) := List.eraseDups_cons
      have hcomm : (ts.filter p).filter (fun u => !u == t) =
          (ts.filter fun u => !u == t).filter p := List.filter_comm _ _ ts
      rw [List.filter_cons_of_pos ht, List.filter_cons_of_pos ht, hcons, ← ih, hcomm]
    · have hother : (ts.filter fun u => !u == t).filter p = ts.filter p := by
        rw [List.filter_filter]
        refine List.filter_congr fun u _ => ?_
        by_cases hu : u = t
        · simp [hu, ht]
        · simp [hu]
      rw [List.filter_cons_of_neg ht, List.filter_cons_of_neg ht, ← ih, hother]
termination_by ts.length
decreasing_by exact Nat.lt_succ_of_le (List.length_filter_le _ _)

theorem distinct_append (ts us : List Text) :
    distinct (ts ++ us) = distinct ts ++ distinct (us.removeAll ts) := List.eraseDups_append

theorem distinct_distinct_append (ts us : List Text) :
    distinct (distinct ts ++ us) = distinct (ts ++ us) := by
  have hsame : us.removeAll (distinct ts) = us.removeAll ts :=
    List.filter_congr fun u _ => by simp [distinct, List.mem_eraseDups]
  rw [distinct_append, distinct_append, distinct_distinct, hsame]

theorem distinct_append_distinct (ts us : List Text) :
    distinct (ts ++ distinct us) = distinct (ts ++ us) := by
  have hchosen : (distinct us).removeAll ts = distinct (us.removeAll ts) :=
    (distinct_filter _ us).symm
  rw [distinct_append, distinct_append, hchosen, distinct_distinct]

end Text

/-! ## Contexts -/

theorem present?_or (t u : Option Text) :
    present? ((present? t).or u) = (present? t).or (present? u) := by
  rcases t with _ | _ | ⟨c, t⟩ <;> rfl

namespace Context

/-- No two fields of the metadata have one name. -/
def HasDistinctNames (c : Context) : Prop := c.metadata.names.Nodup

instance (c : Context) : Decidable c.HasDistinctNames :=
  inferInstanceAs (Decidable c.metadata.names.Nodup)

variable {a b c : Context}

theorem HasDistinctNames.merged (h : b.HasDistinctNames) (c : Context) :
    (b.merged c).HasDistinctNames := Fields.nodup_names_override h c.metadata

/-- **Merging contexts is associative**, in every field and with the order of tags and metadata. -/
theorem merged_assoc (h : b.HasDistinctNames) (a c : Context) :
    (a.merged b).merged c = a.merged (b.merged c) := by
  have hname : (present? c.componentName).or ((present? b.componentName).or a.componentName) =
      (present? ((present? c.componentName).or b.componentName)).or a.componentName := by
    rw [present?_or, Option.or_assoc]
  have hid : (present? c.componentId).or ((present? b.componentId).or a.componentId) =
      (present? ((present? c.componentId).or b.componentId)).or a.componentId := by
    rw [present?_or, Option.or_assoc]
  have htags : Text.distinct (Text.distinct (a.tags ++ b.tags) ++ c.tags) =
      Text.distinct (a.tags ++ Text.distinct (b.tags ++ c.tags)) := by
    rw [Text.distinct_distinct_append, Text.distinct_append_distinct, List.append_assoc]
  have hmetadata : (a.metadata.override b.metadata).override c.metadata =
      a.metadata.override (b.metadata.override c.metadata) := Fields.override_assoc h _ _
  simp only [Context.merged, hname, hid, htags, hmetadata]

/-- A context after several others, one after the other. -/
theorem foldl_merged (h : b.HasDistinctNames) (a : Context) (cs : List Context) :
    cs.foldl Context.merged (a.merged b) = a.merged (cs.foldl Context.merged b) := by
  induction cs generalizing b with
  | nil => rfl
  | cons c cs ih =>
    rw [List.foldl_cons, List.foldl_cons, merged_assoc h, ih (h.merged c)]

end Context

namespace Logger

theorem foldl_withContext (l : Logger) (cs : List Context) :
    cs.foldl withContext l = { l with context := cs.foldl Context.merged l.context } := by
  induction cs generalizing l with
  | nil => rfl
  | cons c cs ih => exact ih (l.withContext c)

/-- **Chains.** Merging contexts is associative, and a logger at the end of a chain of refinements,
of which there is at least one, is the one that a single refinement gives, by the contexts of the
chain merged beforehand. Metadata are mappings: where a context is merged from both sides, no two of
its fields have one name. -/
theorem withContext_chain :
    (∀ a b c : Context, b.HasDistinctNames → (a.merged b).merged c = a.merged (b.merged c)) ∧
    ∀ (l : Logger) (c : Context) (cs : List Context), c.HasDistinctNames →
      (c :: cs).foldl withContext l = l.withContext (cs.foldl Context.merged c) := by
  constructor
  · intro a b c h
    exact Context.merged_assoc h a c
  · intro l c cs h
    rw [List.foldl_cons, foldl_withContext]
    show ({ l with context := cs.foldl Context.merged (l.context.merged c) } : Logger) = _
    rw [Context.foldl_merged h]
    rfl

/-- A logger with tags that repeat and two fields. -/
def ofShop : Logger :=
  ⟨⟨some "shop".toList, none, ["a".toList, "b".toList, "a".toList],
      [("k".toList, .int 1), ("m".toList, .int 2)]⟩, none, ⟨.given none, .standard .sample⟩, 0⟩

/-- A context with an empty name, a tag and a field that `ofShop` has too. -/
def ofCart : Context :=
  ⟨some [], some "c1".toList, ["b".toList, "c".toList],
    [("m".toList, .int 3), ("n".toList, .int 4)]⟩

/-- A context with a tag and a field of each of the other two. -/
def ofPayment : Context :=
  ⟨none, some [], ["c".toList, "a".toList, "d".toList],
    [("n".toList, .int 5), ("k".toList, .int 6)]⟩

/-- Each tag and each field stays where it came first, and each field has its last value. -/
theorem withContext_chain_shop :
    ofCart.HasDistinctNames ∧
      (ofShop.context.merged ofCart).merged ofPayment =
        ofShop.context.merged (ofCart.merged ofPayment) ∧
      (ofShop.withContext ofCart).withContext ofPayment =
        ofShop.withContext (ofCart.merged ofPayment) ∧
      ((ofShop.withContext ofCart).withContext ofPayment).context =
        ⟨some "shop".toList, some "c1".toList,
          ["a".toList, "b".toList, "c".toList, "d".toList],
          [("k".toList, .int 6), ("m".toList, .int 3), ("n".toList, .int 5)]⟩ := by
  have hdistinct : ofCart.HasDistinctNames := by decide
  obtain ⟨hassoc, hchain⟩ := withContext_chain
  exact ⟨hdistinct, hassoc _ _ _ hdistinct, hchain ofShop ofCart [ofPayment] hdistinct, rfl⟩

end Logger

end SourceStamp
