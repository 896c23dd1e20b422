import Mathlib.Data.List.Sort
import Taomee.Dirty.Lemmas.Image
import Taomee.Dirty.Agree

/-!
# Stars on whole characters

Stars are uniform when a character of the image is starred in full or not at all. A range of stars
that begins and ends with characters keeps them uniform.
-/

namespace Taomee.Dirty

open Taomee.Utf8 Taomee.Words

/-! ## Stored words of valid text -/

/-- A word begins with a character and ends with one. -/
structure WordOk (w : List UInt8) : Prop where
  head : ∃ b s, w = b :: s ∧ inner b = false
  last : ∃ v tok, w = v ++ tok ∧ WordToken tok

theorem WordToken.ok {tok : List UInt8} (h : WordToken tok) : WordOk tok where
  head := by
    cases h with
    | half b hb =>
        obtain ⟨h1, -, -, h4⟩ := alnum_byte hb
        exact ⟨b, [], rfl, by simp [inner, h1, h4]⟩
    | raw hm =>
        obtain ⟨l, es, hl, -, -⟩ := hm
        obtain ⟨h1, -, -, h4⟩ := lead_byte_ne hl
        exact ⟨l, es, rfl, by simp [inner, h1, h4]⟩
  last := ⟨[], tok, rfl, h⟩

theorem Token.filter {tok : List UInt8} (h : Token tok) :
    tok.filter notMark = [] ∨ WordToken (tok.filter notMark) := by
  have hminus : notMark minus = false := by decide
  cases h with
  | marks k =>
      left
      rw [List.filter_eq_nil_iff]
      intro c hc
      rw [List.eq_of_mem_replicate hc]
      decide
  | half b hb =>
      have hm : notMark b = true := by
        obtain ⟨h1, h2, -, -⟩ := alnum_byte hb
        simp [notMark, h1, h2]
      right
      rw [List.filter_cons_of_pos hm]
      exact .half b hb
  | full b hb =>
      have hm : notMark b = true := by
        obtain ⟨h1, h2, -, -⟩ := alnum_byte hb
        simp [notMark, h1, h2]
      right
      rw [List.filter_cons_of_pos hm]
      simp only [List.filter_cons, hminus, Bool.false_eq_true, ↓reduceIte, List.filter_nil]
      exact .half b hb
  | raw hm =>
      right
      have hself : tok.filter notMark = tok := by
        rw [List.filter_eq_self]
        obtain ⟨l, es, hl, -, hes⟩ := hm
        intro c hc
        rcases List.mem_cons.mp hc with rfl | hc
        · obtain ⟨h1, h2, -, -⟩ := lead_byte_ne hl
          simp [notMark, h1, h2]
        · obtain ⟨h1, h2, -, -⟩ := cont_byte_ne (hes c hc)
          simp [notMark, h1, h2]
      rw [hself]
      exact .raw hm

theorem wordOk_flatten {toks : List (List UInt8)} (h : ∀ t ∈ toks, t = [] ∨ WordToken t)
    (hne : toks.flatten ≠ []) : WordOk toks.flatten := by
  induction toks with
  | nil => exact absurd rfl hne
  | cons t toks ih =>
      have ih := ih fun t' ht => h t' (List.mem_cons_of_mem _ ht)
      rw [List.flatten_cons] at hne ⊢
      rcases h t List.mem_cons_self with rfl | ht
      · exact ih hne
      by_cases hrest : toks.flatten = []
      · rw [hrest, List.append_nil]
        exact ht.ok
      · obtain ⟨b, s, rfl, hb⟩ := ht.ok.head
        obtain ⟨v, tok, hv, htok⟩ := (ih hrest).last
        exact ⟨⟨b, s ++ toks.flatten, rfl, hb⟩, ⟨b :: s ++ v, tok, by rw [hv, List.append_assoc], htok⟩⟩

theorem wordOk_storedWords {words : List (List UInt8)}
    (h : ∀ w ∈ words, Valid w ∧ w.length ≤ 255) {w : List UInt8} (hw : w ∈ storedWords words) :
    WordOk w := by
  obtain ⟨hmem, hne⟩ := List.mem_filter.mp hw
  obtain ⟨v, hv, rfl⟩ := List.mem_map.mp hmem
  obtain ⟨⟨cs, rfl⟩, hlen⟩ := h v hv
  unfold storedWord at hne ⊢
  rw [List.take_of_length_le hlen] at hne ⊢
  rw [← masked_filter, masked_chars, List.flatMap_def, List.filter_flatten] at hne ⊢
  refine wordOk_flatten (fun t ht => ?_) (by simpa using hne)
  obtain ⟨t', ht', rfl⟩ := List.mem_map.mp ht
  obtain ⟨c, -, rfl⟩ := List.mem_map.mp ht'
  exact (charImage_spec c).1.filter

/-! ## Uniform stars -/

/-- A byte is starred exactly when the byte before it is, within each character. -/
def Uniform (image tc : Buf) (n : Nat) : Prop :=
  ∀ p, p + 1 < n → inner (image (p + 1)) → (tc (p + 1) = star ↔ tc p = star)

variable {image tc tc' : Buf} {n : Nat}

/-- More stars, on the bytes of a range that `K` selects: whole characters only. -/
theorem Uniform.extend (h : Uniform image tc n) {K : Nat → Prop} {lo hi : Nat}
    (hK : ∀ p, p + 1 < n → inner (image (p + 1)) → (K (p + 1) ↔ K p))
    (hlo : inner (image lo) = false) (hhi : hi < n → inner (image hi) = false)
    (hstar : ∀ i, tc' i = star ↔ tc i = star ∨ (lo ≤ i ∧ i < hi ∧ K i)) :
    Uniform image tc' n := by
  intro p hp hin
  have hplo : p + 1 ≠ lo := fun heq => by simp [heq, hlo] at hin
  have hphi : p + 1 ≠ hi := fun heq => by simp [heq, hhi (heq ▸ hp)] at hin
  rw [hstar, hstar, h p hp hin, hK p hp hin]
  have h1 : lo ≤ p + 1 ↔ lo ≤ p := by omega
  have h2 : p + 1 < hi ↔ p < hi := by omega
  rw [h1, h2]

/-! ## Ends of words in an image -/

/-- A character of a word ends at `t`. -/
def EndsAt (image : Buf) (t : Nat) : Prop :=
  isAsciiAlphaOrNumber (image t) = true ∨
    ∃ q, isLead (image q) = true ∧ q ≤ t ∧ q + charLen (image q) = t + 1

/-- Behind the end of a character no continuation byte follows. -/
theorem ImageOk.not_cont (h : ImageOk image n) {t : Nat} (he : EndsAt image t) (ht : t + 1 < n) :
    isCont (image (t + 1)) = false := by
  rcases he with halnum | ⟨q, hq, hle, heq⟩
  · by_contra hc
    obtain ⟨q, hq1, hq2, hlead⟩ := h.cont (t + 1) ht (by simpa using hc)
    obtain ⟨-, -, hal, hac⟩ := alnum_byte halnum
    rcases Nat.lt_or_eq_of_le (Nat.le_of_lt_succ hq1) with hlt | rfl
    · have := (h.lead q (by omega) hlead).2.1 t hlt (by omega)
      simp [hac] at this
    · simp [hal] at hlead
  · have := (h.lead q (by omega) hq).2.2 (by omega)
    rw [heq] at this
    simpa using this

/-- Behind the end of a character that is no filler, and behind the fillers that follow it, another
character begins. -/
theorem ImageOk.after_fillers (h : ImageOk image n) {t : Nat} (htn : t < n) (he : EndsAt image t)
    (hne : image t ≠ minus) : skipFillers image n t + 1 < n →
    inner (image (skipFillers image n t + 1)) = false := by
  intro hlt
  by_cases hm : t + 1 < n ∧ image (t + 1) = minus
  · obtain ⟨x, hx, hor, hxa, h1, h2, h3⟩ := h.filler (t + 1) hm.1 hm.2
    obtain rfl : x = t := by
      rcases hor with hor | hor
      · omega
      · exact absurd (by rwa [show t = x + 1 by omega]) hne
    have hskip : skipFillers image n x = x + 2 := by
      unfold skipFillers
      rw [if_pos hm, if_pos ⟨hx, h2⟩]
    rw [hskip] at hlt ⊢
    unfold inner
    simp only [Bool.or_eq_false_iff, decide_eq_false_iff_not]
    refine ⟨h3 hlt, ?_⟩
    -- a continuation byte would make the filler before it one, or a lead byte
    by_contra hc
    obtain ⟨q, hq1, hq2, hlead⟩ := h.cont (x + 3) hlt (by simpa using hc)
    rcases Nat.lt_or_eq_of_le (Nat.le_of_lt_succ hq1) with hq | rfl
    · have := (h.lead q (by omega) hlead).2.1 (x + 2) hq (by omega)
      exact (cont_byte_ne this).1 h2
    · exact (lead_byte_ne hlead).1 h2
  · have hskip : skipFillers image n t = t := by
      unfold skipFillers
      rw [if_neg hm]
    rw [hskip] at hlt ⊢
    unfold inner
    simp only [Bool.or_eq_false_iff, decide_eq_false_iff_not]
    exact ⟨fun hmin => hm ⟨hlt, hmin⟩, h.not_cont he hlt⟩

/-- The last character of a word that is stored at `t + 1 - w.length` and on. -/
theorem WordOk.endsAt {w : List UInt8} (hw : WordOk w) {t : Nat}
    (hsuf : w <:+ image.toList (t + 1)) : EndsAt image t := by
  obtain ⟨v, tok, rfl, htok⟩ := hw.last
  have hsuf : tok <:+ image.toList (t + 1) := (List.suffix_append v tok).trans hsuf
  obtain ⟨u, hu⟩ := hsuf
  have hlen := congrArg List.length hu
  rw [List.length_append, Buf.toList_length] at hlen
  have hget : ∀ i, (hi : i < tok.length) → image (u.length + i) = tok[i] := by
    intro i hi
    have := Buf.getElem?_toList image (n := t + 1) (i := u.length + i) (by omega)
    rw [← hu, List.getElem?_append_right (by omega), Nat.add_sub_cancel_left,
      List.getElem?_eq_getElem hi] at this
    exact (Option.some.inj this).symm
  cases htok with
  | half b hb =>
      have h0 := hget 0 (by simp)
      simp only [List.length_singleton, List.getElem_singleton] at hlen h0
      obtain rfl : u.length + 0 = t := by omega
      exact .inl (by rw [h0]; exact hb)
  | raw hm =>
      obtain ⟨l, es, hl, hes, -⟩ := hm
      have h0 := hget 0 (by simp)
      simp only [List.length_cons, List.getElem_cons_zero, Nat.add_zero] at hlen h0
      exact .inr ⟨u.length, by rw [h0]; exact hl, by omega, by rw [h0, ← hes]; omega⟩

/-! ## Counting a range -/

theorem countIn_of_all {count : UInt8 → Bool} {a b : Nat} (hab : a ≤ b)
    (h : ∀ i, a ≤ i → i < b → count (tc i) = true) : countIn count tc b = countIn count tc a + (b - a) := by
  induction hab with
  | refl => simp
  | @step m hm ih =>
      rw [countIn_succ, ih fun i h1 h2 => h i h1 (Nat.lt_succ_of_lt h2), h m hm (Nat.lt_succ_self _)]
      have : a ≤ m := hm
      simp
      omega

theorem countIn_of_none {count : UInt8 → Bool} {a b : Nat} (hab : a ≤ b)
    (h : ∀ i, a ≤ i → i < b → count (tc i) = false) : countIn count tc b = countIn count tc a := by
  induction hab with
  | refl => rfl
  | @step m hm ih =>
      rw [countIn_succ, ih fun i h1 h2 => h i h1 (Nat.lt_succ_of_lt h2), h m hm (Nat.lt_succ_self _)]
      rfl

theorem toList_split (image : Buf) {s t : Nat} (h : s ≤ t) :
    image.toList t = image.toList s ++ (List.range' s (t - s)).map image := by
  obtain ⟨k, rfl⟩ : ∃ k, t = s + k := ⟨t - s, by omega⟩
  rw [toList_add, Nat.add_sub_cancel_left, List.range'_eq_map_range, List.map_map]
  rfl

theorem filter_range_length (K : UInt8 → Bool) (tc : Buf) {s t : Nat} (h : s ≤ t) :
    countIn K tc t = countIn K tc s + (((List.range' s (t - s)).map tc).filter K).length := by
  unfold countIn
  rw [toList_split tc h, List.countP_append, ← List.countP_eq_length_filter]

/-- What counts in a range is no less than what the image holds of a kind that counts. -/
theorem countIn_add_le {K count : UInt8 → Bool} {s t : Nat} (h : s ≤ t)
    (hcount : ∀ i, s ≤ i → i < t → K (image i) = true → count (tc i) = true) :
    countIn count tc s + countIn K image t ≤ countIn count tc t + countIn K image s := by
  induction h with
  | refl => exact Nat.le_refl _
  | @step m hm ih =>
      have hsm : s ≤ m := hm
      have ih := ih fun i h1 h2 => hcount i h1 (Nat.lt_succ_of_lt h2)
      rw [countIn_succ, countIn_succ]
      by_cases hk : K (image m) = true
      · rw [if_pos hk, if_pos (hcount m hsm (Nat.lt_succ_self m) hk)]
        omega
      · rw [if_neg hk]
        omega

theorem filter_le_countIn {K count : UInt8 → Bool} {s t : Nat} (h : s ≤ t)
    (hcount : ∀ i, s ≤ i → i < t → K (image i) = true → count (tc i) = true) :
    countIn count tc s + (((List.range' s (t - s)).map image).filter K).length ≤ countIn count tc t := by
  have hle := countIn_add_le h hcount
  rw [filter_range_length K image h] at hle
  omega

/-- A walk whose write test looks at the byte only, over a range that begins with a byte that counts:
it stars exactly the range. -/
theorem walk_exact {count wr : UInt8 → Bool} (pos : Nat) : ∀ {lo left : Nat} {tc : Buf}, lo ≤ pos →
    countIn count tc pos = countIn count tc lo + left → (lo < pos → count (tc lo) = true) →
    ∃ tc', walk count (fun tc i => wr (tc i)) pos left tc = some tc' ∧
      ∀ i, tc' i = if lo ≤ i ∧ i < pos ∧ wr (tc i) then star else tc i := by
  induction pos with
  | zero =>
      intro lo left tc hlo hcount _
      obtain rfl : lo = 0 := Nat.le_zero.mp hlo
      have hleft : left = 0 := by omega
      refine ⟨tc, by simp [walk, hleft], fun i => ?_⟩
      rw [if_neg (by omega)]
  | succ tmp ih =>
      intro lo left tc hlo hcount hfirst
      unfold walk
      rcases Nat.lt_or_eq_of_le hlo with hlt | rfl
      · have hlot : lo ≤ tmp := Nat.le_of_lt_succ hlt
        have hmono := countIn_mono count tc hlt
        have hpos : ¬ left = 0 := by
          have := hfirst hlt
          rw [countIn_succ, this] at hmono
          simp at hmono
          omega
        rw [if_neg hpos]
        have hsame : ∀ c k, k ≤ tmp → countIn count (tc.set tmp c) k = countIn count tc k := by
          intro c k hk
          unfold countIn
          rw [Buf.toList_congr fun i hi => Buf.set_ne tc c (by omega)]
        generalize hw : (if wr (tc tmp) then tc.set tmp star else tc) = tc1
        have hcount1 : ∀ k, k ≤ tmp → countIn count tc1 k = countIn count tc k := by
          intro k hk
          rw [← hw]
          split
          · exact hsame _ k hk
          · rfl
        have hne : ∀ i, i ≠ tmp → tc1 i = tc i := by
          intro i hi
          rw [← hw]
          split
          · exact Buf.set_ne _ _ hi
          · rfl
        have hself : tc1 tmp = if wr (tc tmp) then star else tc tmp := by
          rw [← hw]
          split
          · exact Buf.set_self _ _ _
          · rfl
        generalize hleft : (if count (tc tmp) then left - 1 else left) = left'
        obtain ⟨tc', hwalk, hstars⟩ := @ih lo left' tc1 hlot
          (by
            rw [hcount1 _ (Nat.le_refl _), hcount1 _ hlot, ← hleft]
            rw [countIn_succ] at hcount
            split at hcount <;> simp_all
            omega)
          (fun h => by rw [hne lo (by omega)]; exact hfirst hlt)
        refine ⟨tc', hwalk, fun i => ?_⟩
        rw [hstars i]
        by_cases hi : i = tmp
        · subst hi
          rw [if_neg (by omega), hself]
          have : lo ≤ i ∧ i < i + 1 := ⟨hlot, Nat.lt_succ_self _⟩
          by_cases hwr : wr (tc i) = true
          · rw [if_pos hwr, if_pos ⟨this.1, this.2, hwr⟩]
          · rw [if_neg hwr, if_neg fun h => hwr h.2.2]
        · rw [hne i hi]
          refine if_congr ?_ rfl rfl
          constructor
          · rintro ⟨h1, h2, h3⟩
            exact ⟨h1, Nat.lt_succ_of_lt h2, h3⟩
          · rintro ⟨h1, h2, h3⟩
            exact ⟨h1, by omega, h3⟩
      · have hleft : left = 0 := by omega
        rw [if_pos hleft]
        refine ⟨tc, rfl, fun i => ?_⟩
        rw [if_neg (by omega)]

/-! ## Words among the bytes read -/

/-- The positions of a word that ends at `t` among the bytes read. -/
theorem suffix_positions {ps : List Nat} {w : List UInt8} (hw : w <:+ ps.map image) :
    ∃ qs0 qs, ps = qs0 ++ qs ∧ w = qs.map image := by
  obtain ⟨v, hv⟩ := hw
  refine ⟨ps.take v.length, ps.drop v.length, (List.take_append_drop _ _).symm, ?_⟩
  rw [List.map_drop, ← hv, List.drop_left]

/-- The bytes read so far are what the image holds of the round's kind. -/
theorem RoundInv.filtered {r : Round} {ps : List Nat} {t : Nat} {tc : Buf}
    (h : RoundInv r image n ps t tc) (hm : r.keep minus = false) :
    ps.map image = (image.toList t).filter r.keep := by
  have hps : ps = (List.range t).filter (r.keep ∘ image) := by
    refine List.Pairwise.eq_of_mem_iff (r := (· < ·)) h.sorted (List.pairwise_lt_range.filter _) fun p => ?_
    simp only [List.mem_filter, List.mem_range, Function.comp_apply]
    constructor
    · exact h.fed p
    · rintro ⟨hp, hk⟩
      refine (h.all p hp hk).resolve_right fun hf => ?_
      rw [hf.2, hm] at hk
      exact Bool.false_ne_true hk
  unfold Buf.toList
  rw [hps, List.filter_map]

/-- A word at the end of the bytes read, in a round that reads at least all bytes of a kind `K` and
for a word of such bytes: it is what the image holds of this kind, from some position to `t`. -/
theorem match_range {r : Round} {K : UInt8 → Bool} {ps : List Nat} {t : Nat} {tc : Buf}
    (hinv : RoundInv r image n ps t tc) (hall : ∀ p, p < t → K (image p) = true → p ∈ ps)
    {w : List UInt8} (hword : ∀ c ∈ w, K c = true) (hne : w ≠ []) (hsuf : w <:+ (ps ++ [t]).map image) :
    ∃ s, s ≤ t ∧ (∀ p, s ≤ p → p < t → (p ∈ ps ↔ K (image p) = true)) ∧ K (image s) = true ∧
      K (image t) = true ∧ ((List.range' s (t + 1 - s)).map image).filter K = w := by
  have hsorted : (ps ++ [t]).Pairwise (· < ·) := by
    rw [List.pairwise_append]
    refine ⟨hinv.sorted, List.pairwise_singleton _ _, fun p hp q hq => ?_⟩
    rw [List.mem_singleton.mp hq]
    exact (hinv.fed p hp).1
  obtain ⟨qs0, qs, hqs, rfl⟩ := suffix_positions hsuf
  have hmem : ∀ p, p ∈ qs0 ∨ p ∈ qs ↔ p ∈ ps ∨ p = t := by
    intro p
    have := congrArg (p ∈ ·) hqs
    simp only [List.mem_append, List.mem_singleton, eq_iff_iff] at this
    exact this.symm
  rw [hqs, List.pairwise_append] at hsorted
  obtain ⟨-, hsq, hcross⟩ := hsorted
  cases qs with
  | nil => exact absurd rfl hne
  | cons s qs =>
      rw [List.pairwise_cons] at hsq
      have hle : ∀ p ∈ s :: qs, s ≤ p := by
        intro p hp
        rcases List.mem_cons.mp hp with rfl | hp
        · exact Nat.le_refl _
        · exact Nat.le_of_lt (hsq.1 p hp)
      have hkind : ∀ p ∈ s :: qs, K (image p) = true := fun p hp =>
        hword _ (List.mem_map_of_mem hp)
      have htq : t ∈ s :: qs := by
        rcases (hmem t).mpr (.inr rfl) with h | h
        · -- `t` is behind every position that was read
          have hs := (hmem s).mp (.inr List.mem_cons_self)
          have := hcross t h s List.mem_cons_self
          rcases hs with hs | hs
          · have := (hinv.fed s hs).1
            omega
          · omega
        · exact h
      have hread : ∀ p, s ≤ p → p ≤ t → (p ∈ s :: qs ↔ K (image p) = true) := by
        intro p h1 h2
        refine ⟨hkind p, fun hm => ?_⟩
        have hp : p ∈ ps ∨ p = t := by
          rcases Nat.lt_or_eq_of_le h2 with h2 | h2
          · exact .inl (hall p h2 hm)
          · exact .inr h2
        rcases (hmem p).mpr hp with hq | hq
        · have := hcross p hq s List.mem_cons_self
          omega
        · exact hq
      refine ⟨s, hle t htq, fun p h1 h2 => ?_, hkind s List.mem_cons_self, hkind t htq, ?_⟩
      · rw [← hread p h1 (Nat.le_of_lt h2)]
        constructor
        · intro hp
          rcases (hmem p).mpr (.inl hp) with hq | hq
          · have := hcross p hq s List.mem_cons_self
            omega
          · exact hq
        · intro hp
          rcases (hmem p).mp (.inr hp) with hq | hq
          · exact hq
          · omega
      · rw [List.filter_map]
        congr 1
        refine List.Pairwise.eq_of_mem_iff (r := (· < ·)) ?_ (List.pairwise_cons.mpr hsq) fun p => ?_
        · exact (List.pairwise_lt_range').filter _
        · simp only [List.mem_filter, List.mem_range'_1, Function.comp_apply]
          constructor
          · rintro ⟨h1, h2⟩
            exact (hread p h1.1 (by omega)).mpr h2
          · intro hp
            have hpt : p ≤ t := by
              rcases (hmem p).mp (.inr hp) with hq | rfl
              · exact Nat.le_of_lt (hinv.fed p hq).1
              · exact Nat.le_refl _
            have hsp := hle p hp
            exact ⟨⟨hsp, by omega⟩, hkind p hp⟩

end Taomee.Dirty
