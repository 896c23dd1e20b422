import Taomee.Dirty.Lemmas.Tokens
import Taomee.Dirty.Lemmas.Walk

/-!
# Where characters begin and end in a masked image
-/

namespace Taomee.Dirty

open Taomee.Utf8

/-- The byte belongs to the same character as the one before it. -/
def inner (c : UInt8) : Bool := c = minus || isCont c

/-- What the bytes of an image of valid text tell of its characters. -/
structure ImageOk (image : Buf) (n : Nat) : Prop where
  filler : ∀ p, p < n → image p = minus → ∃ x, x + 2 < n ∧ (p = x + 1 ∨ p = x + 2) ∧
    isAsciiAlphaOrNumber (image x) ∧ image (x + 1) = minus ∧ image (x + 2) = minus ∧
    (x + 3 < n → image (x + 3) ≠ minus)
  lead : ∀ q, q < n → isLead (image q) → q + charLen (image q) ≤ n ∧
    (∀ i, q < i → i < q + charLen (image q) → isCont (image i)) ∧
    (q + charLen (image q) < n → ¬ isCont (image (q + charLen (image q))))
  cont : ∀ p, p < n → isCont (image p) →
    ∃ q, q < p ∧ p < q + charLen (image q) ∧ isLead (image q)

/-! ## Kinds of bytes -/

theorem alnum_byte {b : UInt8} (h : isAsciiAlphaOrNumber b = true) :
    b ≠ minus ∧ b ≠ plus ∧ isLead b = false ∧ isCont b = false := by
  revert h
  exact forall_byte (P := fun b => isAsciiAlphaOrNumber b = true →
    b ≠ minus ∧ b ≠ plus ∧ isLead b = false ∧ isCont b = false) (by decide +kernel) b

theorem lead_byte_ne {b : UInt8} (h : isLead b = true) :
    b ≠ minus ∧ b ≠ plus ∧ isAsciiAlphaOrNumber b = false ∧ isCont b = false := by
  revert h
  exact forall_byte (P := fun b => isLead b = true →
    b ≠ minus ∧ b ≠ plus ∧ isAsciiAlphaOrNumber b = false ∧ isCont b = false) (by decide +kernel) b

theorem cont_byte_ne {b : UInt8} (h : isCont b = true) :
    b ≠ minus ∧ b ≠ plus ∧ isAsciiAlphaOrNumber b = false ∧ isLead b = false := by
  revert h
  exact forall_byte (P := fun b => isCont b = true →
    b ≠ minus ∧ b ≠ plus ∧ isAsciiAlphaOrNumber b = false ∧ isLead b = false) (by decide +kernel) b

/-- No character begins with a filler or a continuation byte. -/
theorem Token.head_not_inner {tok : List UInt8} (h : Token tok) (rest : List UInt8) :
    ∃ b s, tok ++ rest = b :: s ∧ inner b = false := by
  cases h with
  | marks k => exact ⟨plus, _, rfl, by decide⟩
  | half b hb =>
      obtain ⟨h1, -, -, h4⟩ := alnum_byte hb
      exact ⟨b, _, rfl, by simp [inner, h1, h4]⟩
  | full b hb =>
      obtain ⟨h1, -, -, h4⟩ := alnum_byte hb
      exact ⟨b, _, rfl, by simp [inner, h1, h4]⟩
  | raw hm =>
      obtain ⟨l, es, hl, -, -⟩ := hm
      obtain ⟨h1, -, -, h4⟩ := lead_byte_ne hl
      exact ⟨l, _, rfl, by simp [inner, h1, h4]⟩

/-! ## From tokens to positions -/

theorem toList_add (image : Buf) (k m : Nat) :
    image.toList (k + m) = image.toList k ++ Buf.toList (fun i => image (k + i)) m := by
  unfold Buf.toList
  rw [List.range_add, List.map_append, List.map_map]
  rfl

/-- What the bytes of one token tell: fillers stand behind a letter or digit, continuation bytes behind the lead
byte that counts them. -/
structure TokenBytes (image : Buf) (k : Nat) : Prop where
  filler : ∀ p, p < k → image p = minus →
    k = 3 ∧ 1 ≤ p ∧ isAsciiAlphaOrNumber (image 0) ∧ image 1 = minus ∧ image 2 = minus
  lead : ∀ q, q < k → isLead (image q) →
    q = 0 ∧ charLen (image 0) = k ∧ ∀ i, 0 < i → i < k → isCont (image i)
  cont : ∀ p, p < k → isCont (image p) → 0 < p ∧ isLead (image 0) ∧ charLen (image 0) = k

/-- Bytes that are neither fillers nor part of a character of several bytes. -/
theorem TokenBytes.of_single {image : Buf} {k : Nat}
    (h : ∀ p, p < k → image p ≠ minus ∧ isLead (image p) = false ∧ isCont (image p) = false) : TokenBytes image k where
  filler := fun p hp hm => absurd hm (h p hp).1
  lead := fun q hq hl => absurd hl (by simp [(h q hq).2.1])
  cont := fun p hp hc => absurd hc (by simp [(h p hp).2.2])

theorem TokenBytes.of_full {image : Buf} (hb : isAsciiAlphaOrNumber (image 0) = true) (h1 : image 1 = minus)
    (h2 : image 2 = minus) : TokenBytes image 3 := by
  obtain ⟨hm, -, hl, hc⟩ := alnum_byte hb
  have hcases : ∀ p, p < 3 → p = 0 ∨ p = 1 ∨ p = 2 := by omega
  refine { filler := fun p hp hmin => ⟨rfl, ?_, hb, h1, h2⟩, lead := fun q hq hlead => ?_,
           cont := fun p hp hcont => ?_ }
  · rcases hcases p hp with rfl | rfl | rfl
    · exact absurd hmin hm
    · exact Nat.le_refl _
    · exact Nat.le_succ _
  · rcases hcases q hq with rfl | rfl | rfl
    · exact absurd hlead (by simp [hl])
    · exact absurd hlead (by simp [h1, minus, isLead])
    · exact absurd hlead (by simp [h2, minus, isLead])
  · rcases hcases p hp with rfl | rfl | rfl
    · exact absurd hcont (by simp [hc])
    · exact absurd hcont (by simp [h1, minus, isCont])
    · exact absurd hcont (by simp [h2, minus, isCont])

theorem TokenBytes.of_multi {image : Buf} {k : Nat} (hl : isLead (image 0) = true) (hk : charLen (image 0) = k)
    (hall : ∀ i, 0 < i → i < k → isCont (image i) = true) : TokenBytes image k where
  filler := fun p hp hmin => by
    rcases Nat.eq_zero_or_pos p with rfl | hpos
    · exact absurd hmin (lead_byte_ne hl).1
    · exact absurd hmin (cont_byte_ne (hall p hpos hp)).1
  lead := fun q hq hlead => by
    rcases Nat.eq_zero_or_pos q with rfl | hpos
    · exact ⟨rfl, hk, hall⟩
    · exact absurd hlead (by simp [(cont_byte_ne (hall q hpos hq)).2.2.2])
  cont := fun p hp hcont => by
    rcases Nat.eq_zero_or_pos p with rfl | hpos
    · exact absurd hcont (by simp [(lead_byte_ne hl).2.2.2])
    · exact ⟨hpos, hl, hk⟩

theorem Token.bytes {image : Buf} {k : Nat} {tok : List UInt8} (htok : Token tok) (hk : image.toList k = tok) :
    TokenBytes image k := by
  have hlen : tok.length = k := by
    rw [← hk]
    exact Buf.toList_length _ _
  have hget : ∀ i, (hi : i < tok.length) → image i = tok[i] := by
    intro i hi
    have hi' := Buf.getElem?_toList image (n := k) (i := i) (by omega)
    rw [hk, List.getElem?_eq_getElem hi] at hi'
    exact (Option.some.inj hi').symm
  subst hlen
  cases htok with
  | marks j =>
      refine .of_single fun p hp => ?_
      rw [hget p hp]
      simp [plus, minus, isLead, isCont]
  | half b hb =>
      obtain ⟨h1, -, h3, h4⟩ := alnum_byte hb
      refine .of_single fun p hp => ?_
      rw [hget p hp, List.getElem_singleton]
      exact ⟨h1, h3, h4⟩
  | full b hb =>
      have h0 := hget 0 (by simp)
      exact .of_full (by rw [h0]; exact hb) (hget 1 (by simp)) (hget 2 (by simp))
  | raw hm =>
      obtain ⟨l, es, hl, hes, hall⟩ := hm
      have h0 : image 0 = l := hget 0 (Nat.succ_pos _)
      rw [← h0] at hl hes
      refine .of_multi hl (by rw [← hes]; rfl) fun i hi0 hi => ?_
      obtain ⟨i, rfl⟩ := Nat.exists_eq_succ_of_ne_zero (Nat.ne_of_gt hi0)
      rw [hget _ hi]
      exact hall _ (List.getElem_mem _)

/-- A token in front of an image. -/
theorem ImageOk.cons {image : Buf} {k m : Nat} {tok : List UInt8} (htok : Token tok)
    (hk : image.toList k = tok) (hhead : 0 < m → inner (image k) = false)
    (h : ImageOk (fun i => image (k + i)) m) : ImageOk image (k + m) := by
  have hb := htok.bytes hk
  have hnext : ∀ p, k ≤ p → p < k + m → ∃ j, p = k + j ∧ j < m := fun p h1 h2 => ⟨p - k, by omega, by omega⟩
  refine { filler := fun p hp hmin => ?_, lead := fun q hq hlead => ?_, cont := fun p hp hcont => ?_ }
  · rcases Nat.lt_or_ge p k with hpk | hpk
    · obtain ⟨rfl, hp1, h0, h1, h2⟩ := hb.filler p hpk hmin
      refine ⟨0, by omega, by omega, h0, h1, h2, fun h3 hm => ?_⟩
      have hin := hhead (by omega)
      simp only [Nat.zero_add] at hm
      simp [inner, hm] at hin
    · obtain ⟨j, rfl, hj⟩ := hnext p hpk hp
      obtain ⟨x, hx, hor, h1, h2, h3, h4⟩ := h.filler j hj hmin
      exact ⟨k + x, by omega, by omega, h1, h2, h3, fun h => h4 (by omega)⟩
  · rcases Nat.lt_or_ge q k with hqk | hqk
    · obtain ⟨rfl, hlen, hall⟩ := hb.lead q hqk hlead
      rw [hlen, Nat.zero_add]
      refine ⟨Nat.le_add_right _ _, hall, fun hm => ?_⟩
      have hin := hhead (by omega)
      simp only [inner, Bool.or_eq_false_iff] at hin
      simp [hin.2]
    · obtain ⟨j, rfl, hj⟩ := hnext q hqk hq
      obtain ⟨h1, h2, h3⟩ := h.lead j hj hlead
      refine ⟨by omega, fun i hi1 hi2 => ?_, fun hm => ?_⟩
      · obtain ⟨i, rfl⟩ : ∃ i', i = k + i' := ⟨i - k, by omega⟩
        exact h2 i (by omega) (by omega)
      · have hbehind := h3 (by omega)
        rwa [Nat.add_assoc]
  · rcases Nat.lt_or_ge p k with hpk | hpk
    · obtain ⟨hpos, hl, hlen⟩ := hb.cont p hpk hcont
      exact ⟨0, hpos, by rwa [hlen, Nat.zero_add], hl⟩
    · obtain ⟨j, rfl, hj⟩ := hnext p hpk hp
      obtain ⟨q, h1, h2, h3⟩ := h.cont j hj hcont
      exact ⟨k + q, by omega, by omega, h3⟩

theorem imageOk_of_tokens {toks : List (List UInt8)} (h : ∀ tok ∈ toks, Token tok) :
    ∀ {image : Buf} {n : Nat}, image.toList n = toks.flatten → ImageOk image n := by
  induction toks with
  | nil =>
      intro image n hn
      have hzero : n = 0 := by
        have := congrArg List.length hn
        simpa using this
      subst hzero
      exact ⟨fun p hp => absurd hp (Nat.not_lt_zero _), fun q hq => absurd hq (Nat.not_lt_zero _),
        fun p hp => absurd hp (Nat.not_lt_zero _)⟩
  | cons tok toks ih =>
      intro image n hn
      rw [List.flatten_cons] at hn
      have hlen := congrArg List.length hn
      rw [Buf.toList_length, List.length_append] at hlen
      obtain ⟨m, rfl⟩ : ∃ m, n = tok.length + m := ⟨_, hlen⟩
      rw [toList_add] at hn
      obtain ⟨h1, h2⟩ := List.append_inj hn (by simp)
      refine ImageOk.cons (h tok List.mem_cons_self) h1 (fun hm => ?_)
        (ih (fun t ht => h t (List.mem_cons_of_mem _ ht)) h2)
      cases toks with
      | nil =>
          rw [List.flatten_nil, List.length_nil] at hlen
          omega
      | cons t toks =>
          obtain ⟨b, s, hbs, hb⟩ := (h t (by simp)).head_not_inner toks.flatten
          have hfirst := Buf.getElem?_toList (fun i => image (tok.length + i)) hm
          rw [h2, List.flatten_cons, hbs, List.getElem?_cons_zero] at hfirst
          have hfirst : b = image tok.length := Option.some.inj hfirst
          rw [← hfirst]
          exact hb

end Taomee.Dirty
