import SourceStamp.Call.Stamp
import SourceStamp.Proofs.Call.Landing
import SourceStamp.Proofs.Edit.Pass

/-!
# The landings of edits

- `Stamp.host?`: the object literal that takes in the stamp of a call, if there is one.
- `Stamp.LandsAt.whole`, `Stamp.LandsAt.literal`, `Stamp.LandsAt.joined`, `Stamp.LandsAt.append`:
  where each form of edit lands.
- `Stamp.LandsAt.of_editFor`: every edit that stamps a balanced call has a landing, and the host
  tells its target.
- `Stamp.LandsAt.position_eq_iff`, `Stamp.LandsAt.clear_of_ne`, `Stamp.LandsAt.clear_iff_of_host`:
  the edits of two calls meet only in a host that the calls have in common.
-/

namespace SourceStamp

/-! ## The edits of calls -/

namespace Stamp

/-- The object literal that takes in the stamp of a call: the last one among the arguments of a
hook. -/
def host? (kind : CalleeKind) (list : ArgumentList) : Option ObjectLiteral :=
  match kind with
  | .hook => list.closeParen.bind fun _ => list.layout.lastObject?
  | .wrapper => none
  | .method => none

/-- An edit with its landing. The target is the closing brace of the host, and the closing
parenthesis where there is none. -/
structure LandsAt (source : Text) (opened closed : Nat) (kind : CalleeKind) (e : Edit)
    (p q t : Nat) : Prop where
  position_eq : e.position = p
  stop_eq : e.stop = q
  landing : Landing source opened closed p q t
  host_some : ∀ o, host? kind (ArgumentList.find source opened) = some o →
    o.closeBrace = t ∧ CodeAt source t '}' ∧ (o.isEmpty = true ↔ q = t + 1)
  host_none : host? kind (ArgumentList.find source opened) = none → t = closed

variable {source : Text} {opened closed : Nat} {kind : CalleeKind} {file : Text} {line : Int}
  {e : Edit}

/-- What is added at the end of a list lands there. -/
theorem LandsAt.append (hhost : host? kind (ArgumentList.find source opened) = none)
    {layout : ArgumentLayout} {arguments : List Text} :
    LandsAt source opened closed kind (append closed layout arguments) closed closed closed where
  position_eq := rfl
  stop_eq := Edit.stop_insert _ _
  landing := .atEnd
  host_some := fun o ho => by rw [hhost] at ho; cases ho
  host_none := fun _ => rfl

section Hooks

variable (hb : Balanced source opened closed)

include hb

theorem host?_hook : host? .hook (ArgumentList.find source opened) =
    (ArgumentList.find source opened).layout.lastObject? := by
  rw [host?, ArgumentList.find_eq_some hb]
  rfl

/-- The stamp of a hook without arguments lands between its parentheses. -/
theorem LandsAt.whole (hempty : (ArgumentList.find source opened).layout.isEmpty = true) :
    LandsAt source opened closed .hook (.replace (opened + 1) closed (object file line))
      (opened + 1) closed closed where
  position_eq := rfl
  stop_eq := Edit.stop_replace _ _ _
  landing := .whole (hb.gap_of_isEmpty hempty)
  host_some := fun o ho => by
    have hnone := (host?_hook hb).trans (lastObject_of_isEmpty hempty)
    cases hnone.symm.trans ho
  host_none := fun _ => rfl

variable {o : ObjectLiteral}
  (ho : (ArgumentList.find source opened).layout.lastObject? = some o)

include ho

/-- A stamp that replaces an object literal lands on it. -/
theorem LandsAt.literal (hempty : o.isEmpty = true) :
    ∃ p q t, LandsAt source opened closed .hook
      (.replace o.openBrace (o.closeBrace + 1) (object file line)) p q t := by
  have hhost := (host?_hook hb).trans ho
  obtain ⟨b, hpair, hopened, hclosed, rfl⟩ := hb.lastObject_at ho
  have hinside : b.lastInside = b.opened := by simpa [BracePair.toObject] using hempty
  refine ⟨b.opened, b.closed + 1, b.closed, by simp [Edit.replace, BracePair.toObject],
    by simp [BracePair.toObject], .onObject hpair hopened hclosed hinside, ?_, ?_⟩
  · intro o' ho'
    obtain rfl := Option.some.inj (hhost.symm.trans ho')
    exact ⟨by simp [BracePair.toObject], hpair.closed_at, by simp [BracePair.toObject, hinside]⟩
  · intro hnone
    cases hhost.symm.trans hnone

/-- A stamp that joins an object literal lands in it. -/
theorem LandsAt.joined (hfilled : o.isEmpty = false) {text : Text} :
    ∃ p q t, LandsAt source opened closed .hook (.insert o.contentEnd text) p q t := by
  have hhost := (host?_hook hb).trans ho
  obtain ⟨b, hpair, hopened, hclosed, rfl⟩ := hb.lastObject_at ho
  have hinside : b.lastInside ≠ b.opened := by simpa [BracePair.toObject] using hfilled
  refine ⟨b.lastInside + 1, b.lastInside + 1, b.closed,
    by simp [Edit.insert, BracePair.toObject], by simp [BracePair.toObject],
    .inObject hpair hopened hclosed hinside, ?_, ?_⟩
  · intro o' ho'
    obtain rfl := Option.some.inj (hhost.symm.trans ho')
    have hlt := hpair.lastInside_lt
    refine ⟨by simp [BracePair.toObject], hpair.closed_at, ?_⟩
    simp only [BracePair.toObject, beq_iff_eq]
    omega
  · intro hnone
    cases hhost.symm.trans hnone

end Hooks

theorem editFor_eq (hb : Balanced source opened closed) :
    editFor kind (ArgumentList.find source opened) file line =
      match kind with
      | .hook => some (hookEdit opened closed (ArgumentList.find source opened).layout file line)
      | .wrapper => wrapperEdit? closed (ArgumentList.find source opened).layout file line
      | .method => methodEdit? closed (ArgumentList.find source opened).layout file line := by
  have hopen : (ArgumentList.find source opened).openParen = (opened : Int) := by
    rw [ArgumentList.find_eq_some hb]
  have hclose : (ArgumentList.find source opened).closeParen = some (closed : Int) := by
    rw [ArgumentList.find_eq_some hb]
  cases kind with
  | hook => simp only [editFor, hopen, hclose]
  | wrapper => simp only [editFor, hclose]
  | method => simp only [editFor, hclose]

/-- **Landings**: every edit that stamps a call with balanced parentheses lands between them. -/
theorem LandsAt.of_editFor (hb : Balanced source opened closed)
    (he : editFor kind (ArgumentList.find source opened) file line = some e) :
    ∃ p q t, LandsAt source opened closed kind e p q t := by
  obtain ⟨close, hclose, hform⟩ := exists_editForm he
  have hfind := ArgumentList.find_eq_some hb
  obtain rfl : (closed : Int) = close := by
    rw [hfind] at hclose
    exact Option.some.inj hclose
  cases hform with
  | whole hkind hempty =>
    subst hkind
    have hopen : (ArgumentList.find source opened).openParen = (opened : Int) := by rw [hfind]
    rw [hopen]
    exact ⟨_, _, _, LandsAt.whole hb hempty⟩
  | literal hkind ho hempty =>
    subst hkind
    exact LandsAt.literal hb ho hempty
  | joined hkind ho hfilled =>
    subst hkind
    exact LandsAt.joined hb ho hfilled
  | added n hnone =>
    refine ⟨closed, closed, closed, .append ?_⟩
    cases kind with
    | hook => exact (host?_hook hb).trans (hnone rfl)
    | wrapper | method => rfl

/-! ## Two calls -/

namespace LandsAt

variable {opened' closed' : Nat} {kind' : CalleeKind} {e' : Edit} {p q t p' q' t' : Nat}

theorem fits (hb : Balanced source opened closed) (h : LandsAt source opened closed kind e p q t) :
    e.Fits source := by
  have hbounds := h.landing.bounds hb
  have hlen := hb.closed_spec.2.lt
  have hp := h.position_eq
  have hq := h.stop_eq
  constructor <;> omega

/-- The stamps of two calls have the same target exactly when the calls have the same host. -/
theorem target_eq_iff (hb : Balanced source opened closed)
    (h : LandsAt source opened closed kind e p q t) (hb' : Balanced source opened' closed')
    (h' : LandsAt source opened' closed' kind' e' p' q' t') (hne : opened ≠ opened') :
    t = t' ↔ ∃ o o', host? kind (ArgumentList.find source opened) = some o ∧
      host? kind' (ArgumentList.find source opened') = some o' ∧ o.closeBrace = o'.closeBrace := by
  constructor
  · intro heq
    cases hhost : host? kind (ArgumentList.find source opened) with
    | none =>
      have hparen : CodeAt source t ')' := h.host_none hhost ▸ hb.closed_spec.2
      cases hhost' : host? kind' (ArgumentList.find source opened') with
      | none =>
        have hclosed : closed = closed' := by rw [← h.host_none hhost, heq, h'.host_none hhost']
        exact absurd (hb.unique_close (hclosed ▸ hb')) hne
      | some o' =>
        exact absurd (hparen.unique (heq ▸ (h'.host_some o' hhost').2.1)) (by decide)
    | some o =>
      obtain ⟨hclose, hat, -⟩ := h.host_some o hhost
      cases hhost' : host? kind' (ArgumentList.find source opened') with
      | none =>
        have hparen : CodeAt source t' ')' := h'.host_none hhost' ▸ hb'.closed_spec.2
        exact absurd (hparen.unique (heq ▸ hat)) (by decide)
      | some o' =>
        refine ⟨o, o', rfl, rfl, ?_⟩
        rw [hclose, (h'.host_some o' hhost').1, heq]
  · rintro ⟨o, o', ho, ho', heq⟩
    rw [(h.host_some o ho).1, (h'.host_some o' ho').1] at heq
    exact Int.ofNat_inj.mp heq

theorem position_eq_iff (hb : Balanced source opened closed)
    (h : LandsAt source opened closed kind e p q t) (hb' : Balanced source opened' closed')
    (h' : LandsAt source opened' closed' kind' e' p' q' t') (hne : opened ≠ opened') :
    e.position = e'.position ↔ t = t' := by
  rw [h.position_eq, h'.position_eq, Int.ofNat_inj]
  constructor
  · intro heq
    refine Classical.byContradiction ?_
    intro hne'
    exact h.landing.position_ne hb hb' h'.landing hne' heq
  · exact fun heq => (h.landing.eq_of_target_eq hb hb' h'.landing hne heq).1

/-- Stamps with different targets are clear of each other. -/
theorem clear_of_ne (hb : Balanced source opened closed)
    (h : LandsAt source opened closed kind e p q t) (hb' : Balanced source opened' closed')
    (h' : LandsAt source opened' closed' kind' e' p' q' t') (hne : t ≠ t') : e.Clear e' := by
  have hpos := h.landing.position_ne hb hb' h'.landing hne
  unfold Edit.Clear
  rw [h.position_eq, h.stop_eq, h'.position_eq, h'.stop_eq]
  constructor
  · intro hle
    have := h.landing.stop_le hb' h'.landing hne (by omega)
    omega
  · intro hle
    have := h'.landing.stop_le hb h.landing hne.symm (by omega)
    omega

/-- The stamps of two calls with the same host are clear of each other exactly when the host is not
empty: then both are inserted at the same place, and otherwise both replace the same text. -/
theorem clear_iff_of_host (hb : Balanced source opened closed)
    (h : LandsAt source opened closed kind e p q t) (hb' : Balanced source opened' closed')
    (h' : LandsAt source opened' closed' kind' e' p' q' t') (hne : opened ≠ opened')
    {o : ObjectLiteral} (ho : host? kind (ArgumentList.find source opened) = some o)
    (heq : t = t') : e.Clear e' ↔ o.isEmpty = false := by
  obtain ⟨rfl, rfl⟩ := h.landing.eq_of_target_eq hb hb' h'.landing hne heq
  obtain ⟨-, hat, hempty⟩ := h.host_some o ho
  have hbounds := h.landing.bounds hb
  unfold Edit.Clear
  rw [h.position_eq, h.stop_eq, h'.position_eq, h'.stop_eq, ← Bool.not_eq_true, hempty]
  rcases h.landing.stop_of_brace hb hat with hstop | hstop <;> omega

end LandsAt
end Stamp
end SourceStamp
