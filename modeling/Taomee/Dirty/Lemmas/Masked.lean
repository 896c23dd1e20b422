import Taomee.Dirty.Lemmas.Normalise

/-!
# The masked text and the filtered text

Both normalisers take the same characters at a time. What one deletes the other masks with `+` and
`-`, so the filtered text is the masked text without these.
-/

namespace Taomee.Dirty

theorem xlatcase_not_punc : ∀ {c : UInt8}, isAsciiPuncOrSymbol c = false →
    isAsciiPuncOrSymbol (xlatcase c) = false := by
  intro c
  exact forall_byte (P := fun c => isAsciiPuncOrSymbol c = false →
    isAsciiPuncOrSymbol (xlatcase c) = false) (by decide +kernel) c

/-- A full-width character that is neither jumped over nor half-width punctuation. -/
theorem classify_dbc {c d : UInt8} {rest : List UInt8} (h : classify c rest = (true, 0, d)) :
    isAsciiPuncOrSymbol d = false := by
  unfold classify at h
  rcases hs : switchByte c rest with ⟨f, j⟩
  simp only [hs] at h
  split at h
  · split at h
    · simp at h
    · rename_i hp
      obtain ⟨-, -, rfl⟩ := by simpa using h
      simpa using hp
  · simp at h

/-- The mark bytes of a masked text. -/
def notMark (c : UInt8) : Bool := c ≠ plus && c ≠ minus

theorem notMark_of_not_punc {c : UInt8} (h : isAsciiPuncOrSymbol c = false) : notMark c = true := by
  unfold notMark
  simp only [Bool.and_eq_true, decide_eq_true_eq]
  constructor
  · rintro rfl
    exact absurd h (by decide)
  · rintro rfl
    exact absurd h (by decide)

/-- The bytes that filtering stores are the bytes that masking stores and that are no marks. The
induction is on the text; both loops jump over the same bytes. -/
theorem replaceLoop_filter (s : List UInt8) : ∀ k,
    (stringReplaceLoop k s).filter notMark = (stringFilterLoop 0 k s).1 := by
  induction s with
  | nil =>
      intro k
      cases k <;> rfl
  | cons c rest ih =>
      intro k
      cases k with
      | succ k => exact ih k
      | zero =>
          have hd := @classify_dbc c
          have hj := classify_jump_le_two c rest
          rcases hc : classify c rest with ⟨sbcFlag, jumpBytes, dbc⟩
          simp only [hc] at hj
          have hplus : notMark plus = false := by decide
          have hminus : notMark minus = false := by decide
          simp only [stringReplaceLoop, stringFilterLoop, hc]
          by_cases h1 : jumpBytes = 1
          · subst h1
            simpa [hplus] using ih 1
          by_cases h2 : jumpBytes = 2
          · subst h2
            simpa [hplus] using ih 2
          obtain rfl : jumpBytes = 0 := by omega
          simp only [ge_iff_le, Nat.le_zero_eq, Nat.one_ne_zero, Nat.reduceEqDiff, ↓reduceIte]
          cases sbcFlag with
          | true =>
              have hmark := notMark_of_not_punc (xlatcase_not_punc (hd hc))
              simpa [hminus, hmark] using ih 2
          | false =>
              by_cases hp : isAsciiPuncOrSymbol c = true
              · simpa [hp, hplus] using ih 0
              · have hp : isAsciiPuncOrSymbol c = false := by simpa using hp
                have hmark := notMark_of_not_punc (xlatcase_not_punc hp)
                simpa [hp, hmark] using ih 0

theorem masked_filter (s : List UInt8) : (masked s).filter notMark = filtered s := by
  rw [masked_eq_loop, filtered_eq_loop]
  exact replaceLoop_filter s 0

/-- A filtered text has no punctuation. -/
theorem stringFilterLoop_not_punc (s : List UInt8) : ∀ k, ∀ c ∈ (stringFilterLoop 0 k s).1,
    isAsciiPuncOrSymbol c = false := by
  induction s with
  | nil =>
      intro k c hc
      cases k <;> exact absurd hc List.not_mem_nil
  | cons b rest ih =>
      intro k c hc
      cases k with
      | succ k => exact ih k c hc
      | zero =>
          have hd := @classify_dbc b
          rcases hcl : classify b rest with ⟨sbcFlag, jumpBytes, dbc⟩
          simp only [stringFilterLoop, hcl] at hc
          split at hc
          · exact ih _ c hc
          · rename_i hj
            obtain rfl : jumpBytes = 0 := by omega
            split at hc
            · rename_i hs
              subst hs
              rcases List.mem_cons.mp hc with rfl | hc
              · exact xlatcase_not_punc (hd hcl)
              · exact ih _ c hc
            · split at hc
              · exact ih _ c hc
              · rename_i hp
                rcases List.mem_cons.mp hc with rfl | hc
                · exact xlatcase_not_punc (by simpa using hp)
                · exact ih _ c hc

theorem filtered_not_punc {s : List UInt8} {c : UInt8} (h : c ∈ filtered s) :
    isAsciiPuncOrSymbol c = false := by
  rw [filtered_eq_loop] at h
  exact stringFilterLoop_not_punc s 0 c h

/-- A masked text has no stars. -/
theorem star_notMem_masked (s : List UInt8) : star ∉ masked s := by
  intro h
  have : star ∈ (masked s).filter notMark := List.mem_filter.mpr ⟨h, by decide⟩
  rw [masked_filter] at this
  exact absurd (filtered_not_punc this) (by decide)

end Taomee.Dirty
