import Taomee.Dirty.Utf8Punc

/-!
# Lengths of normalised texts
-/

namespace Taomee.Dirty

/-! ## What a character takes -/

theorem switchByte_jump_le (c : UInt8) (rest : List UInt8) : (switchByte c rest).2 ≤ rest.length := by
  unfold switchByte
  repeat' split
  all_goals simp

theorem switchByte_full (c : UInt8) (rest : List UInt8) (h : (switchByte c rest).1 = true) :
    c = 0xEF ∧ ∃ b b' l, rest = b :: b' :: l ∧
      ((b = 0xBC ∧ 0x81 ≤ b' ∧ b' ≤ 0xBF) ∨ (b = 0xBD ∧ 0x80 ≤ b' ∧ b' ≤ 0x9E)) := by
  unfold switchByte at h
  repeat' split at h
  all_goals simp_all

theorem classify_full (c : UInt8) (rest : List UInt8) (h : (classify c rest).1 = true) :
    (switchByte c rest).1 = true := by
  unfold classify at h
  by_contra hn
  simp [hn] at h

theorem classify_full_length {c : UInt8} {rest : List UInt8} (h : (classify c rest).1 = true) :
    2 ≤ rest.length := by
  obtain ⟨_, b, b', l, rfl, _⟩ := switchByte_full c rest (classify_full c rest h)
  simp

theorem classify_jump_le (c : UInt8) (rest : List UInt8) :
    (classify c rest).2.1 ≤ rest.length := by
  unfold classify
  have h := switchByte_jump_le c rest
  by_cases hs : (switchByte c rest).1 = true
  · have hf := switchByte_full c rest hs
    simp only [hs, ↓reduceIte]
    split
    · obtain ⟨_, b, b', l, rfl, _⟩ := hf
      simp
    · exact h
  · simp only [hs, Bool.false_eq_true, ↓reduceIte]
    exact h

theorem switchByte_jump_le_two (c : UInt8) (rest : List UInt8) : (switchByte c rest).2 ≤ 2 := by
  unfold switchByte
  repeat' split
  all_goals simp

theorem classify_jump_le_two (c : UInt8) (rest : List UInt8) : (classify c rest).2.1 ≤ 2 := by
  unfold classify
  have h := switchByte_jump_le_two c rest
  dsimp only
  split
  · split
    · exact Nat.le_refl 2
    · exact h
  · exact h

/-! ## string_filter -/

/-- Every byte of the text is stored, subtracted from `*m` or still to be jumped over. -/
theorem stringFilterLoop_length (flag : Int) (s : List UInt8) : ∀ k, k ≤ s.length →
    ((stringFilterLoop flag k s).1.length : Int) + (stringFilterLoop flag k s).2 + k = s.length ∧
      0 ≤ (stringFilterLoop flag k s).2 := by
  induction s with
  | nil =>
      intro k hk
      have : k = 0 := by simpa using hk
      subst this
      simp [stringFilterLoop]
  | cons c rest ih =>
      intro k hk
      cases k with
      | succ k =>
          have := ih k (by simpa using hk)
          simp only [stringFilterLoop, List.length_cons]
          omega
      | zero =>
          have hj := classify_jump_le c rest
          have hf := @classify_full_length c rest
          rcases hc : classify c rest with ⟨sbcFlag, jumpBytes, dbc⟩
          simp only [hc] at hj hf
          simp only [stringFilterLoop, hc, List.length_cons]
          split
          · have := ih _ hj
            simp only
            omega
          · split
            · rename_i hfull
              have := ih 2 (hf hfull)
              simp only [List.length_cons]
              omega
            · have := ih 0 (Nat.zero_le _)
              split <;> simp only [List.length_cons] <;> omega

theorem stringFilter_length {s : List UInt8} {m : Int} (flag : Int) (h0 : 0 ≤ m) (hm : m ≤ s.length) :
    (stringFilter s m flag).2 = (stringFilter s m flag).1.length ∧
      ((stringFilter s m flag).1.length : Int) ≤ m := by
  have h := stringFilterLoop_length flag (s.take m.toNat) 0 (Nat.zero_le _)
  have hlen : (s.take m.toNat).length = m.toNat := by
    rw [List.length_take]
    omega
  unfold stringFilter
  dsimp only
  omega

theorem filtered_eq_loop (s : List UInt8) : filtered s = (stringFilterLoop 0 0 s).1 := by
  unfold filtered stringFilter
  simp

theorem stringFilter_eq {s : List UInt8} {m : Int} (h0 : 0 ≤ m) (hm : m ≤ s.length) :
    stringFilter s m 0 =
      (filtered (s.take m.toNat), ((filtered (s.take m.toNat)).length : Int)) := by
  have h1 : (stringFilter s m 0).1 = filtered (s.take m.toNat) := by
    rw [filtered_eq_loop]
    rfl
  refine Prod.ext h1 ?_
  rw [(stringFilter_length 0 h0 hm).1, h1]

theorem filtered_length_le (s : List UInt8) : (filtered s).length ≤ s.length := by
  have h := stringFilterLoop_length 0 s 0 (Nat.zero_le _)
  rw [filtered_eq_loop]
  omega

/-! ## string_replace -/

theorem stringReplaceLoop_length (s : List UInt8) : ∀ k, k ≤ s.length →
    (stringReplaceLoop k s).length + k = s.length := by
  induction s with
  | nil =>
      intro k hk
      have : k = 0 := by simpa using hk
      subst this
      rfl
  | cons c rest ih =>
      intro k hk
      cases k with
      | succ k =>
          have := ih k (by simpa using hk)
          simp only [stringReplaceLoop, List.length_cons]
          omega
      | zero =>
          have hj := classify_jump_le c rest
          have hf := @classify_full_length c rest
          rcases hc : classify c rest with ⟨sbcFlag, jumpBytes, dbc⟩
          simp only [hc] at hj hf
          simp only [stringReplaceLoop, hc, List.length_cons]
          split
          · have := ih _ hj
            simp only [List.length_cons]
            omega
          · split
            · have := ih _ hj
              simp only [List.length_cons]
              omega
            · split
              · rename_i hfull
                have := ih 2 (hf hfull)
                simp only [List.length_cons]
                omega
              · have := ih 0 (Nat.zero_le _)
                split <;> simp only [List.length_cons] <;> omega

theorem masked_eq_loop (s : List UInt8) : masked s = stringReplaceLoop 0 s := by
  unfold masked stringReplace
  simp

@[simp] theorem masked_length (s : List UInt8) : (masked s).length = s.length := by
  rw [masked_eq_loop]
  exact stringReplaceLoop_length s 0 (Nat.zero_le _)

end Taomee.Dirty
