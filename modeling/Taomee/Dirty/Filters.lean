import Taomee.Dirty.Lemmas.Tokens

/-!
# The two normalisers

`string_replace` masks what `string_filter` deletes. On valid UTF-8 the filter works character by
character: it never takes a part of a character for something else.
-/

namespace Taomee.Dirty

open Taomee.Utf8

/-! ## Any bytes -/

/-- Masking keeps the length, writes no star, and leaves the filtered text when its marks are deleted. -/
theorem stringReplace_filters (s : List UInt8) :
    (stringReplace s s.length).length = s.length ∧ star ∉ stringReplace s s.length ∧
      (stringReplace s s.length).filter (fun c => c ≠ plus && c ≠ minus) = (stringFilter s s.length 0).1 ∧
      (stringFilter s s.length 0).2 = (stringFilter s s.length 0).1.length :=
  ⟨masked_length s, star_notMem_masked s, masked_filter s,
    (stringFilter_length 0 (Int.natCast_nonneg _) (Int.le_refl _)).1⟩

/-! ## Valid text -/

/-- What becomes of an ASCII character. -/
def normAscii (c : Char) : List Char :=
  if isAsciiAlphaOrNumber (UInt8.ofNat c.toNat) then [c.toUpper] else []

/-- What becomes of a character. -/
def norm (c : Char) : List Char :=
  let n := c.toNat
  if (0xA0 ≤ n ∧ n ≤ 0xBF) ∨ n = 0xD7 ∨ n = 0xF7 ∨ (0x2000 ≤ n ∧ n ≤ 0x206F) ∨ (0x3000 ≤ n ∧ n ≤ 0x303F) ∨
      (0xFE50 ≤ n ∧ n ≤ 0xFE6F) then []
  else if 0xFF01 ≤ n ∧ n ≤ 0xFF5E then normAscii (Char.ofNat (n - 0xFEE0))
  else if n ≤ 0x7F then normAscii c
  else [c]

theorem filtered_plain {l : UInt8} {es : List UInt8} (hl : isLead l = true) (hes : ∀ x ∈ es, isCont x = true)
    (hc : classify l es = (false, 0, 0)) : filtered (l :: es) = l :: es := by
  obtain ⟨hp, hx⟩ := lead_byte hl
  have himage : masked (l :: es) = l :: es := by
    have hconts := replaceLoop_conts hes []
    rw [List.append_nil] at hconts
    rw [masked_eq_loop, replaceLoop_plain hc, hp, hx, hconts, stringReplaceLoop, List.append_nil]
    rfl
  rw [← masked_filter, himage, List.filter_eq_self]
  intro b hb
  rcases List.mem_cons.mp hb with rfl | hb
  · exact notMark_of_not_punc hp
  · exact notMark_of_not_punc (cont_byte (hes b hb)).2.1

/-- Filtering and normalising agree on the character. -/
def NormOk (c : Char) : Prop := filtered (String.utf8EncodeChar c) = (norm c).flatMap String.utf8EncodeChar

instance (c : Char) : Decidable (NormOk c) := inferInstanceAs (Decidable (_ = _))

theorem normOk_low : ∀ n < 256, NormOk (Char.ofNat n) := by decide +kernel

/-- The blocks of 64 characters of three bytes in which some are special. -/
theorem normOk_special : ∀ q ∈ [128, 129, 192, 1017, 1020, 1021], ∀ r < 64, NormOk (Char.ofNat (64 * q + r)) := by
  decide +kernel

/-- No character that starts with these two bytes is special. -/
def Ordinary (c b : UInt8) : Prop :=
  c ≠ 0xC2 ∧ c ≠ 0xC3 ∧ (c = 0xE2 → b ≠ 0x80 ∧ b ≠ 0x81) ∧ (c = 0xE3 → b ≠ 0x80) ∧
    (c = 0xEF → b ≠ 0xBC ∧ b ≠ 0xBD ∧ b ≠ 0xB9)

instance (c b : UInt8) : Decidable (Ordinary c b) := inferInstanceAs (Decidable (_ ∧ _))

theorem classify_ordinary {c b : UInt8} (h : Ordinary c b) (rest : List UInt8) :
    classify c (b :: rest) = (false, 0, 0) := by
  obtain ⟨h1, h2, h3, h4, h5⟩ := h
  have hs : switchByte c (b :: rest) = (false, 0) := by
    unfold switchByte
    rw [if_neg h1, if_neg h2]
    cases rest with
    | nil => simp
    | cons b' rest =>
        dsimp only
        split
        · rename_i hc
          rw [if_neg fun h => h.elim (fun h => (h3 hc).1 h.1) fun h => (h3 hc).2 h.1]
        split
        · rename_i hc
          rw [if_neg fun h => h4 hc h.1]
        split
        · rename_i hc
          rw [if_neg (h5 hc).1, if_neg (h5 hc).2.1, if_neg (h5 hc).2.2]
        · rfl
  unfold classify
  rw [hs]
  rfl

theorem ordinary_lead {c : UInt8} (h : c ∉ [0xC2, 0xC3, 0xE2, 0xE3, 0xEF]) (b : UInt8) : Ordinary c b := by
  simp only [List.mem_cons, List.not_mem_nil, or_false, not_or] at h
  exact ⟨h.1, h.2.1, fun hc => absurd hc h.2.2.1, fun hc => absurd hc h.2.2.2.1, fun hc => absurd hc h.2.2.2.2⟩

theorem lead_two : ∀ q < 32, 4 ≤ q → UInt8.ofNat (q + 0xC0) ∉ [0xC2, 0xC3, 0xE2, 0xE3, 0xEF] := by decide +kernel

theorem lead_four : ∀ n < 8, UInt8.ofNat (n + 0xF0) ∉ [0xC2, 0xC3, 0xE2, 0xE3, 0xEF] := by decide +kernel

theorem lead_three : ∀ n < 16, (UInt8.ofNat (n + 0xE0) ≠ 0xC2 ∧ UInt8.ofNat (n + 0xE0) ≠ 0xC3) ∧
    (UInt8.ofNat (n + 0xE0) = 0xE2 → n = 2) ∧ (UInt8.ofNat (n + 0xE0) = 0xE3 → n = 3) ∧
    (UInt8.ofNat (n + 0xE0) = 0xEF → n = 15) := by
  decide +kernel

theorem cont_three : ∀ n < 64, (UInt8.ofNat (n + 0x80) = 0x80 → n = 0) ∧ (UInt8.ofNat (n + 0x80) = 0x81 → n = 1) ∧
    (UInt8.ofNat (n + 0x80) = 0xB9 → n = 57) ∧ (UInt8.ofNat (n + 0x80) = 0xBC → n = 60) ∧
    (UInt8.ofNat (n + 0x80) = 0xBD → n = 61) := by
  decide +kernel

theorem ordinary_three {q : Nat} (h : q < 1024) (hq : q ∉ [128, 129, 192, 1017, 1020, 1021]) :
    Ordinary (UInt8.ofNat (q / 64 + 0xE0)) (UInt8.ofNat (q % 64 + 0x80)) := by
  simp only [List.mem_cons, List.not_mem_nil, or_false] at hq
  obtain ⟨⟨h1, h2⟩, hE2, hE3, hEF⟩ := lead_three (q / 64) (by omega)
  obtain ⟨h80, h81, hB9, hBC, hBD⟩ := cont_three (q % 64) (Nat.mod_lt _ (by decide))
  refine ⟨h1, h2, fun hc => ⟨fun hb => ?_, fun hb => ?_⟩, fun hc hb => ?_,
    fun hc => ⟨fun hb => ?_, fun hb => ?_, fun hb => ?_⟩⟩
  · have := hE2 hc
    have := h80 hb
    omega
  · have := hE2 hc
    have := h81 hb
    omega
  · have := hE3 hc
    have := h80 hb
    omega
  · have := hEF hc
    have := hBC hb
    omega
  · have := hEF hc
    have := hBD hb
    omega
  · have := hEF hc
    have := hB9 hb
    omega

/-- A character of several bytes that are not special, by its number. -/
theorem classify_utf8 {c : Char} (hlow : 256 ≤ c.toNat) (hq : c.toNat / 64 ∉ [128, 129, 192, 1017, 1020, 1021])
    {l : UInt8} {es : List UInt8} (he : String.utf8EncodeChar c = l :: es) : classify l es = (false, 0, 0) := by
  unfold String.utf8EncodeChar at he
  have hv : c.val.toNat = c.toNat := rfl
  rw [hv] at he
  dsimp only at he
  rw [if_neg (by omega)] at he
  split at he
  · obtain ⟨rfl, rfl⟩ := List.cons.inj he
    exact classify_ordinary (ordinary_lead (lead_two _ (Nat.mod_lt _ (by decide)) (by omega)) _) _
  split at he
  · obtain ⟨rfl, rfl⟩ := List.cons.inj he
    have h := ordinary_three (by omega) hq
    rw [show c.toNat / 64 / 64 = c.toNat / 4096 % 16 by omega] at h
    exact classify_ordinary h _
  · obtain ⟨rfl, rfl⟩ := List.cons.inj he
    exact classify_ordinary (ordinary_lead (lead_four _ (Nat.mod_lt _ (by decide))) _) _

/-- The characters that are not special stay. -/
theorem norm_plain {c : Char} (hlow : 256 ≤ c.toNat) (hq : c.toNat / 64 ∉ [128, 129, 192, 1017, 1020, 1021]) :
    norm c = [c] := by
  simp only [List.mem_cons, List.not_mem_nil, or_false] at hq
  unfold norm
  dsimp only
  rw [if_neg (by omega), if_neg (by omega), if_neg (by omega)]

theorem normOk (c : Char) : NormOk c := by
  by_cases hlow : c.toNat < 256
  · have h := normOk_low c.toNat hlow
    rwa [Char.ofNat_toNat] at h
  by_cases hq : c.toNat / 64 ∈ [128, 129, 192, 1017, 1020, 1021]
  · have h := normOk_special (c.toNat / 64) hq (c.toNat % 64) (Nat.mod_lt _ (by decide))
    rwa [Nat.div_add_mod, Char.ofNat_toNat] at h
  unfold NormOk
  rw [norm_plain (Nat.le_of_not_lt hlow) hq, List.flatMap_singleton]
  rcases utf8EncodeChar_shape c with ⟨b, he, hb⟩ | hm
  · exfalso
    unfold String.utf8EncodeChar at he
    have hv : c.val.toNat = c.toNat := rfl
    rw [hv] at he
    dsimp only at he
    rw [if_neg (by omega)] at he
    split at he
    · cases he
    split at he
    · cases he
    · cases he
  · generalize he : String.utf8EncodeChar c = e at hm ⊢
    obtain ⟨l, es, hl, -, hes⟩ := hm
    exact filtered_plain hl hes (classify_utf8 (Nat.le_of_not_lt hlow) hq he)

/-- The filter on valid text normalises each character and keeps their order. -/
theorem stringFilter_chars (cs : List Char) :
    stringFilter (cs.flatMap String.utf8EncodeChar) (cs.flatMap String.utf8EncodeChar).length 0 =
      ((cs.flatMap norm).flatMap String.utf8EncodeChar,
        (((cs.flatMap norm).flatMap String.utf8EncodeChar).length : Int)) := by
  have hfilter : filtered (cs.flatMap String.utf8EncodeChar) = (cs.flatMap norm).flatMap String.utf8EncodeChar := by
    rw [← masked_filter, masked_chars, List.filter_flatMap, List.flatMap_assoc]
    refine List.flatMap_congr fun c _ => ?_
    rw [← normOk c, ← masked_filter, masked_eq_loop]
    rfl
  rw [stringFilter_eq (Int.natCast_nonneg _) (Int.le_refl _), Int.toNat_natCast, List.take_length, hfilter]

end Taomee.Dirty
