import SourceStamp.Files.Encoding

/-!
# Reading what was written

The bytes of a text in UTF-8 stand for that text (`Encoding.decode_utf8Bytes`). A character of more
than one byte is read by its lead byte, `decodeFrom_lead`, the bytes in between, `decodeFrom_more`,
and its last byte, `decodeFrom_last`.
-/

namespace SourceStamp
namespace Encoding

theorem toNat_ofNat {n : Nat} (h : n < 256) : (UInt8.ofNat n).toNat = n :=
  UInt8.toNat_ofNat'.trans (Nat.mod_eq_of_lt h)

/-! ## Lead bytes -/

theorem begin?_one {n : Nat} (h : n < 0x80) :
    begin? (UInt8.ofNat n) = some ⟨[UInt8.ofNat n], n, 0, continuationLow, continuationHigh⟩ := by
  rw [begin?]
  simp only [toNat_ofNat (show n < 256 by omega)]
  exact if_pos h

theorem begin?_two {n : Nat} (h : 2 ≤ n) (h' : n < 0x20) :
    begin? (UInt8.ofNat (n + 0xC0)) =
      some ⟨[UInt8.ofNat (n + 0xC0)], n, 1, continuationLow, continuationHigh⟩ := by
  rw [begin?]
  simp only [toNat_ofNat (show n + 0xC0 < 256 by omega), Nat.add_sub_cancel]
  rw [if_neg (by omega), if_neg (by omega), if_pos (by omega)]

theorem begin?_three {n : Nat} (h : n < 0x10) :
    begin? (UInt8.ofNat (n + 0xE0)) =
      some ⟨[UInt8.ofNat (n + 0xE0)], n, 2, if n = 0 then 0xA0 else continuationLow,
        if n = 0xD then 0x9F else continuationHigh⟩ := by
  rw [begin?]
  simp only [toNat_ofNat (show n + 0xE0 < 256 by omega), Nat.add_sub_cancel]
  rw [if_neg (by omega), if_neg (by omega), if_neg (by omega), if_pos (by omega)]
  simp

theorem begin?_four {n : Nat} (h : n < 5) :
    begin? (UInt8.ofNat (n + 0xF0)) =
      some ⟨[UInt8.ofNat (n + 0xF0)], n, 3, if n = 0 then 0x90 else continuationLow,
        if n = 4 then 0x8F else continuationHigh⟩ := by
  rw [begin?]
  simp only [toNat_ofNat (show n + 0xF0 < 256 by omega), Nat.add_sub_cancel]
  rw [if_neg (by omega), if_neg (by omega), if_neg (by omega), if_neg (by omega),
    if_pos (by omega)]
  simp

/-! ## Characters -/

section Steps

variable {position n : Nat} {g : Begun} {b : UInt8} {rest : Bytes}

theorem decodeFrom_lead (hb : begin? b = some g) (hmissing : g.missing ≠ 0) :
    decodeFrom position none (b :: rest) = decodeFrom position (some g) rest := by
  rw [decodeFrom, hb]
  exact if_neg hmissing

variable (hn : n < 64) (hlow : g.low ≤ n + 0x80) (hhigh : n + 0x80 ≤ g.high)

include hn hlow hhigh

theorem decodeFrom_more (hmissing : 1 < g.missing) :
    decodeFrom position (some g) (UInt8.ofNat (n + 0x80) :: rest) =
      decodeFrom position (some ⟨g.taken ++ [UInt8.ofNat (n + 0x80)], 64 * g.bits + n,
        g.missing - 1, continuationLow, continuationHigh⟩) rest := by
  have hb := toNat_ofNat (show n + 0x80 < 256 by omega)
  rw [decodeFrom, hb, if_pos ⟨hlow, hhigh⟩, Begun.extend, hb, Nat.add_sub_cancel]
  exact if_neg (show g.missing - 1 ≠ 0 by omega)

theorem decodeFrom_last (hmissing : g.missing = 1) {c : Char}
    (hc : Char.ofNat (64 * g.bits + n) = c) :
    decodeFrom position (some g) (UInt8.ofNat (n + 0x80) :: rest) =
      (decodeFrom (position + (g.taken.length + 1)) none rest).map (c :: ·) := by
  have hb := toNat_ofNat (show n + 0x80 < 256 by omega)
  rw [decodeFrom, hb, if_pos ⟨hlow, hhigh⟩, Begun.extend, hb, Nat.add_sub_cancel]
  simp [hmissing, hc]

end Steps

/-- A character is read from its bytes. -/
theorem decodeFrom_encodeChar (c : Char) (position : Nat) (rest : Bytes) :
    decodeFrom position none (String.utf8EncodeChar c ++ rest) =
      (decodeFrom (position + (String.utf8EncodeChar c).length) none rest).map (c :: ·) := by
  have hvalid : c.val.toNat < 0xD800 ∨ 0xDFFF < c.val.toNat ∧ c.val.toNat < 0x110000 := c.valid
  have hc : Char.ofNat c.val.toNat = c := Char.ofNat_toNat c
  rw [String.utf8EncodeChar]
  generalize c.val.toNat = v at hvalid hc
  have hmod : v % 64 < 64 := Nat.mod_lt _ (by decide)
  have hmod' : v / 64 % 64 < 64 := Nat.mod_lt _ (by decide)
  by_cases h1 : v ≤ 0x7F
  · rw [if_pos h1]
    show decodeFrom position none (UInt8.ofNat v :: rest) = _
    rw [decodeFrom, begin?_one (by omega)]
    simp [hc]
  by_cases h2 : v ≤ 0x7FF
  · rw [if_neg h1, if_pos h2, Nat.mod_eq_of_lt (show v / 64 < 32 by omega)]
    show decodeFrom position none (_ :: _ :: rest) = _
    rw [decodeFrom_lead (begin?_two (by omega) (by omega)) (Nat.succ_ne_zero 0),
      decodeFrom_last hmod (Nat.le_add_left _ _) (show v % 64 + 128 ≤ 0xBF by omega) rfl
        (by rw [Nat.div_add_mod, hc])]
    rfl
  -- the bits that the first two bytes hold, and those of all three
  have hbits : 64 * (v / 4096) + v / 64 % 64 = v / 64 := by omega
  have hall : 64 * (v / 64) + v % 64 = v := Nat.div_add_mod v 64
  by_cases h3 : v ≤ 0xFFFF
  · rw [if_neg h1, if_neg h2, if_pos h3, Nat.mod_eq_of_lt (show v / 4096 < 16 by omega)]
    show decodeFrom position none (_ :: _ :: _ :: rest) = _
    rw [decodeFrom_lead (begin?_three (by omega)) (Nat.succ_ne_zero 1),
      decodeFrom_more hmod' (by dsimp only [continuationLow]; split <;> omega)
        (by dsimp only [continuationHigh]; split <;> omega) (Nat.lt_succ_self 1),
      decodeFrom_last hmod (Nat.le_add_left _ _) (show v % 64 + 128 ≤ 0xBF by omega) rfl
        (by rw [hbits, hall, hc])]
    rfl
  · have hmod'' : v / 4096 % 64 < 64 := Nat.mod_lt _ (by decide)
    have htop : 64 * (v / 262144) + v / 4096 % 64 = v / 4096 := by omega
    rw [if_neg h1, if_neg h2, if_neg h3, Nat.mod_eq_of_lt (show v / 262144 < 8 by omega)]
    show decodeFrom position none (_ :: _ :: _ :: _ :: rest) = _
    rw [decodeFrom_lead (begin?_four (by omega)) (Nat.succ_ne_zero 2),
      decodeFrom_more hmod'' (by dsimp only [continuationLow]; split <;> omega)
        (by dsimp only [continuationHigh]; split <;> omega) (Nat.lt_add_of_pos_left (by decide)),
      decodeFrom_more hmod' (Nat.le_add_left _ _) (show v / 64 % 64 + 128 ≤ 0xBF by omega)
        (Nat.lt_succ_self 1),
      decodeFrom_last hmod (Nat.le_add_left _ _) (show v % 64 + 128 ≤ 0xBF by omega) rfl
        (by rw [htop, hbits, hall, hc])]
    rfl

/-! ## Texts -/

theorem decodeFrom_utf8Bytes (t : Text) (position : Nat) :
    decodeFrom position none (utf8Bytes t) = .ok t := by
  induction t generalizing position with
  | nil => rfl
  | cons c t ih =>
    show decodeFrom position none (String.utf8EncodeChar c ++ utf8Bytes t) = _
    rw [decodeFrom_encodeChar, ih]
    rfl

/-- **Round trip**: the bytes of a text in UTF-8 stand for it. -/
theorem decode_utf8Bytes (t : Text) : utf8.decode (utf8Bytes t) = .ok t :=
  decodeFrom_utf8Bytes t 0

end Encoding
end SourceStamp
