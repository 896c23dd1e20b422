import Taomee.Dirty.Lemmas.Masked
import Taomee.Lib.Utf8

/-!
# Masked characters

In the masked image of valid UTF-8 a character stands as marks only, as one letter or digit, as a
letter or digit with two fillers, or unchanged. So the bytes of an image tell where its characters
begin: a filler or a continuation byte belongs to the character before it.
-/

namespace Taomee.Dirty

open Taomee.Utf8

/-- The image of one character. -/
inductive Token : List UInt8 → Prop
  | marks (k : Nat) : Token (List.replicate (k + 1) plus)
  | half (b : UInt8) : isAsciiAlphaOrNumber b → Token [b]
  | full (b : UInt8) : isAsciiAlphaOrNumber b → Token [b, minus, minus]
  | raw {e : List UInt8} : Multi e → Token e

/-- What filtering leaves of one character, if anything. -/
inductive WordToken : List UInt8 → Prop
  | half (b : UInt8) : isAsciiAlphaOrNumber b → WordToken [b]
  | raw {e : List UInt8} : Multi e → WordToken e

/-! ## One character -/

theorem alnum_of_not_punc {b : UInt8} (hlt : b < 0x80) (h : isAsciiPuncOrSymbol b = false) :
    isAsciiAlphaOrNumber b = true := by
  revert hlt h
  exact forall_byte (P := fun b => b < 0x80 → isAsciiPuncOrSymbol b = false →
    isAsciiAlphaOrNumber b = true) (by decide +kernel) b

theorem alnum_xlatcase {b : UInt8} (h : isAsciiAlphaOrNumber b = true) :
    isAsciiAlphaOrNumber (xlatcase b) = true := by
  revert h
  exact forall_byte (P := fun b => isAsciiAlphaOrNumber b = true →
    isAsciiAlphaOrNumber (xlatcase b) = true) (by decide +kernel) b

theorem convertDbc_lt {b b' : UInt8} (l : List UInt8)
    (h : (b = 0xBC ∧ 0x81 ≤ b' ∧ b' ≤ 0xBF) ∨ (b = 0xBD ∧ 0x80 ≤ b' ∧ b' ≤ 0x9E)) :
    convertDbc 0xEF (b :: b' :: l) < 0x80 := by
  have heq : convertDbc 0xEF (b :: b' :: l) = convertDbc 0xEF [b, b'] := rfl
  rw [heq]
  rcases h with ⟨rfl, h⟩ | ⟨rfl, h⟩
  · revert h
    exact forall_byte (P := fun b' => 0x81 ≤ b' ∧ b' ≤ 0xBF → convertDbc 0xEF [0xBC, b'] < 0x80)
      (by decide +kernel) b'
  · revert h
    exact forall_byte (P := fun b' => 0x80 ≤ b' ∧ b' ≤ 0x9E → convertDbc 0xEF [0xBD, b'] < 0x80)
      (by decide +kernel) b'

theorem classify_full_alnum {c d : UInt8} {rest : List UInt8} (h : classify c rest = (true, 0, d)) :
    isAsciiAlphaOrNumber d = true := by
  refine alnum_of_not_punc ?_ (classify_dbc h)
  unfold classify at h
  have hf := switchByte_full c rest
  rcases hs : switchByte c rest with ⟨f, j⟩
  simp only [hs] at h hf
  cases f with
  | false => simp at h
  | true =>
      obtain ⟨rfl, b, b', l, rfl, hbb⟩ := hf rfl
      simp only [↓reduceIte] at h
      split at h
      · simp at h
      · obtain ⟨-, -, rfl⟩ := by simpa using h
        exact convertDbc_lt l hbb

/-- What the switch finds: nothing, or something that takes exactly the character that the lead byte
starts. -/
theorem switchByte_cases (c : UInt8) (rest : List UInt8) :
    switchByte c rest = (false, 0) ∨
      (isLead c ∧ (switchByte c rest = (false, charLen c - 1) ∨
        (switchByte c rest = (true, 0) ∧ charLen c = 3))) := by
  unfold switchByte
  repeat' split
  all_goals first
    | exact .inl rfl
    | (subst_vars; exact .inr ⟨by decide, .inl (by decide)⟩)
    | (subst_vars; exact .inr ⟨by decide, .inr ⟨rfl, by decide⟩⟩)

theorem classify_cases (c : UInt8) (rest : List UInt8) :
    classify c rest = (false, 0, 0) ∨
      (isLead c ∧ ((∃ f d, classify c rest = (f, charLen c - 1, d)) ∨
        (∃ d, classify c rest = (true, 0, d) ∧ isAsciiAlphaOrNumber d) ∧ charLen c = 3)) := by
  have hd := fun d => @classify_full_alnum c d rest
  unfold classify at hd ⊢
  rcases switchByte_cases c rest with h | ⟨hl, h | ⟨h, h3⟩⟩
  · exact .inl (by simp [h])
  · exact .inr ⟨hl, .inl ⟨false, 0, by simp [h]⟩⟩
  · refine .inr ⟨hl, ?_⟩
    simp only [h, ↓reduceIte] at hd ⊢
    split
    · exact .inl ⟨true, convertDbc c rest, by simp [h3]⟩
    · rename_i hp
      simp only [hp, Bool.false_eq_true, ↓reduceIte] at hd
      exact .inr ⟨⟨_, rfl, hd _ rfl⟩, h3⟩

theorem charLen_pos (c : UInt8) : 2 ≤ charLen c ∧ charLen c ≤ 4 := by
  unfold charLen
  repeat' split
  all_goals simp

/-- The switch looks at no more than the character. -/
theorem switchByte_append {l : UInt8} {es : List UInt8} (h : es.length + 1 = charLen l)
    (rest : List UInt8) : switchByte l (es ++ rest) = switchByte l es := by
  unfold switchByte
  match es with
  | [] => have := charLen_pos l; simp at h; omega
  | [x] =>
      have h1 : l ≠ 0xE2 := fun he => absurd (he ▸ h) (by simp [charLen])
      have h2 : l ≠ 0xE3 := fun he => absurd (he ▸ h) (by simp [charLen])
      have h3 : l ≠ 0xEF := fun he => absurd (he ▸ h) (by simp [charLen])
      simp [h1, h2, h3]
  | x :: y :: es => rfl

theorem classify_append {l : UInt8} {es : List UInt8} (h : es.length + 1 = charLen l)
    (rest : List UInt8) : classify l (es ++ rest) = classify l es := by
  unfold classify
  rw [switchByte_append h]
  match es with
  | [] => have := charLen_pos l; simp at h; omega
  | [x] =>
      rcases switchByte_cases l [x] with h1 | ⟨hl, h1 | ⟨h1, h3⟩⟩
      · simp [h1]
      · simp [h1]
      · rw [h3] at h
        exact absurd h (by simp)
  | x :: y :: es => rfl

/-! ## The image of valid text -/

theorem cont_byte {b : UInt8} (h : isCont b = true) : isLead b = false ∧
    isAsciiPuncOrSymbol b = false ∧ xlatcase b = b := by
  revert h
  exact forall_byte (P := fun b => isCont b = true → isLead b = false ∧
    isAsciiPuncOrSymbol b = false ∧ xlatcase b = b) (by decide +kernel) b

theorem lead_byte {b : UInt8} (h : isLead b = true) :
    isAsciiPuncOrSymbol b = false ∧ xlatcase b = b := by
  revert h
  exact forall_byte (P := fun b => isLead b = true →
    isAsciiPuncOrSymbol b = false ∧ xlatcase b = b) (by decide +kernel) b

theorem replaceLoop_plain {c : UInt8} {rest : List UInt8} (h : classify c rest = (false, 0, 0)) :
    stringReplaceLoop 0 (c :: rest) =
      (if isAsciiPuncOrSymbol c then plus else xlatcase c) :: stringReplaceLoop 0 rest := by
  simp only [stringReplaceLoop, h]
  simp only [Nat.zero_ne_one, Nat.reduceEqDiff, Bool.false_eq_true, ↓reduceIte]
  split <;> rfl

theorem replaceLoop_conts {es : List UInt8} (h : ∀ x ∈ es, isCont x) (rest : List UInt8) :
    stringReplaceLoop 0 (es ++ rest) = es ++ stringReplaceLoop 0 rest := by
  induction es with
  | nil => rfl
  | cons x es ih =>
      obtain ⟨hl, hp, hx⟩ := cont_byte (h x List.mem_cons_self)
      have hc : classify x (es ++ rest) = (false, 0, 0) :=
        (classify_cases x (es ++ rest)).resolve_right fun hh => by simp [hl] at hh
      rw [List.cons_append, replaceLoop_plain hc, hp, hx, ih fun y hy => h y (List.mem_cons_of_mem _ hy)]
      rfl

theorem length_one_or_two {es : List UInt8} (hpos : 1 ≤ es.length) (hle : es.length ≤ 2) :
    (∃ x, es = [x]) ∨ ∃ x y, es = [x, y] := by
  by_cases h1 : es.length = 1
  · exact .inl (List.length_eq_one_iff.mp h1)
  · exact .inr (List.length_eq_two.mp (by omega))

theorem replaceLoop_char (c : Char) : ∃ tok, Token tok ∧
    tok.length = (String.utf8EncodeChar c).length ∧
    ∀ rest, stringReplaceLoop 0 (String.utf8EncodeChar c ++ rest) = tok ++ stringReplaceLoop 0 rest := by
  rcases utf8EncodeChar_shape c with ⟨b, heq, hlt⟩ | hm
  · rw [heq]
    have hl : isLead b = false := by
      revert hlt
      exact forall_byte (P := fun b => b < 0x80 → isLead b = false) (by decide +kernel) b
    have hc : ∀ rest, classify b rest = (false, 0, 0) := fun rest =>
      (classify_cases b rest).resolve_right fun hh => by simp [hl] at hh
    refine ⟨[if isAsciiPuncOrSymbol b then plus else xlatcase b], ?_, rfl,
      fun rest => replaceLoop_plain (hc rest)⟩
    split
    · exact .marks 0
    · rename_i hp
      exact .half _ (alnum_xlatcase (alnum_of_not_punc hlt (by simpa using hp)))
  · generalize String.utf8EncodeChar c = e at hm
    obtain ⟨l, es, hl, hlen, hes⟩ := hm
    obtain ⟨hlp, hlx⟩ := lead_byte hl
    have hstep := fun rest => classify_append hlen rest
    rcases classify_cases l es with hc | ⟨-, ⟨f, d, hc⟩ | ⟨⟨d, hc, hd⟩, h3⟩⟩
    · refine ⟨l :: es, .raw (.mk l es hl hlen hes), rfl, fun rest => ?_⟩
      rw [List.cons_append, replaceLoop_plain ((hstep rest).trans hc), hlp, hlx,
        replaceLoop_conts hes]
      rfl
    · rw [← hlen, Nat.add_sub_cancel] at hc
      refine ⟨List.replicate (es.length + 1) plus, .marks _, by simp, fun rest => ?_⟩
      have h24 := charLen_pos l
      have hj := classify_jump_le_two l es
      rw [hc] at hj
      rw [List.cons_append]
      simp only [stringReplaceLoop, (hstep rest).trans hc]
      -- one byte or two are skipped
      have hpos : 1 ≤ es.length := by omega
      rcases length_one_or_two hpos hj with ⟨x, rfl⟩ | ⟨x, y, rfl⟩
      · rfl
      · rfl
    · rw [h3] at hlen
      obtain ⟨x, y, rfl⟩ := List.length_eq_two.mp (Nat.succ.inj hlen)
      refine ⟨[xlatcase d, minus, minus], .full _ (alnum_xlatcase hd), rfl, fun rest => ?_⟩
      rw [List.cons_append]
      simp only [stringReplaceLoop, (hstep rest).trans hc]
      rfl

/-- The image of one character. -/
def charImage (c : Char) : List UInt8 := stringReplaceLoop 0 (String.utf8EncodeChar c)

/-- The image of a character is a token of its length, and does not depend on what follows. -/
theorem charImage_spec (c : Char) : Token (charImage c) ∧
    (charImage c).length = (String.utf8EncodeChar c).length ∧
    ∀ rest, stringReplaceLoop 0 (String.utf8EncodeChar c ++ rest) =
      charImage c ++ stringReplaceLoop 0 rest := by
  obtain ⟨tok, htok, hlen, hloop⟩ := replaceLoop_char c
  have heq : charImage c = tok := by
    have := hloop []
    rwa [List.append_nil, stringReplaceLoop, List.append_nil] at this
  rw [heq]
  exact ⟨htok, hlen, hloop⟩

/-- The image of valid text is made of the images of its characters. -/
theorem masked_chars (cs : List Char) :
    masked (cs.flatMap String.utf8EncodeChar) = cs.flatMap charImage := by
  rw [masked_eq_loop]
  induction cs with
  | nil => rfl
  | cons c cs ih => rw [List.flatMap_cons, (charImage_spec c).2.2, ih, List.flatMap_cons]

end Taomee.Dirty
