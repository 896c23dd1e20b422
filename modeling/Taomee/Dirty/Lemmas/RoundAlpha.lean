import Taomee.Dirty.Lemmas.Stars

/-!
# The second round keeps characters whole

Its walk looks behind a filler for the letter that the filler belongs to. It does not look whether
the byte in between is a filler too, so the first filler of a full-width digit passes for a letter's
when a letter stands in front of the digit. Unless a walk comes there, it stars whole characters.
-/

namespace Taomee.Dirty

open Taomee.Utf8 Taomee.Words

/-- In the masked text `r` a full-width digit stands behind a letter, a word covers both among the
letters of the text, and no word ends at the letter in front of the digit. -/
def LookBehind (W : List (List UInt8)) (r : List UInt8) : Prop :=
  ∃ u a d v, r = u ++ a :: d :: minus :: v ∧ isAsciiAlpha a = true ∧ isAsciiNumber d = true ∧
    (∃ x y, x ++ y ∈ W ∧ x ≠ [] ∧ y ≠ [] ∧ x <:+ letters (u ++ [a]) ∧ y <+: letters v) ∧
    ¬ Hit W (letters (u ++ [a]))

variable {W : List (List UInt8)} {image : Buf} {n : Nat}

/-! ## Letters of the image -/

/-- The byte at `i` is a letter or a filler of a full-width letter. -/
def letterAt (image : Buf) (i : Nat) : Bool :=
  isAsciiAlpha (image i) ||
    (image i = minus &&
      ((1 ≤ i && isAsciiAlpha (image (i - 1))) ||
        (2 ≤ i && image (i - 1) = minus && isAsciiAlpha (image (i - 2)))))

theorem alpha_alnum {c : UInt8} (h : isAsciiAlpha c = true) : isAsciiAlphaOrNumber c = true := by
  simp [isAsciiAlphaOrNumber, h]

theorem number_of_not_alpha {c : UInt8} (h : isAsciiAlphaOrNumber c = true)
    (ha : isAsciiAlpha c = false) : isAsciiNumber c = true := by
  simpa [isAsciiAlphaOrNumber, ha] using h

theorem not_alpha_minus : isAsciiAlpha minus = false := by decide

theorem alpha_ne_star {c : UInt8} (h : isAsciiAlpha c = true) : c ≠ star := by
  rintro rfl
  exact absurd h (by decide)

theorem letterAt_alpha {i : Nat} (h : isAsciiAlpha (image i) = true) : letterAt image i = true := by
  simp [letterAt, h]

theorem letterAt_filler {x : Nat} (h : isAsciiAlphaOrNumber (image x) = true)
    (h1 : image (x + 1) = minus) :
    letterAt image (x + 1) = isAsciiAlpha (image x) ∧
      (image (x + 2) = minus → letterAt image (x + 2) = isAsciiAlpha (image x)) := by
  have hx : image x ≠ minus := (alnum_byte h).1
  refine ⟨?_, fun h2 => ?_⟩
  · simp [letterAt, h1, hx, not_alpha_minus]
  · simp [letterAt, h1, h2, not_alpha_minus]

theorem letterAt_alnum {x : Nat} (h : isAsciiAlphaOrNumber (image x) = true) :
    letterAt image x = isAsciiAlpha (image x) := by
  simp [letterAt, (alnum_byte h).1]

theorem not_letterAt_multi {i : Nat} (h : isLead (image i) = true ∨ isCont (image i) = true) :
    letterAt image i = false := by
  have hne : image i ≠ minus ∧ isAsciiAlphaOrNumber (image i) = false := by
    rcases h with h | h
    · exact ⟨(lead_byte_ne h).1, (lead_byte_ne h).2.2.1⟩
    · exact ⟨(cont_byte_ne h).1, (cont_byte_ne h).2.2.1⟩
  have halpha : isAsciiAlpha (image i) = false := by
    have := hne.2
    simp only [isAsciiAlphaOrNumber, Bool.or_eq_false_iff] at this
    exact this.2
  simp [letterAt, hne.1, halpha]

/-- All bytes of a character are of a letter, or none. -/
theorem ImageOk.letterAt (h : ImageOk image n) {p : Nat} (hp : p + 1 < n)
    (hin : inner (image (p + 1)) = true) : letterAt image (p + 1) = letterAt image p := by
  unfold inner at hin
  simp only [Bool.or_eq_true, decide_eq_true_eq] at hin
  rcases hin with hm | hc
  · obtain ⟨x, -, hor, hxa, h1, h2, -⟩ := h.filler _ hp hm
    obtain ⟨hf1, hf2⟩ := letterAt_filler hxa h1
    rcases hor with hor | hor
    · obtain rfl : p = x := by omega
      rw [hf1, letterAt_alnum hxa]
    · obtain rfl : p = x + 1 := by omega
      rw [hf2 h2, hf1]
  · obtain ⟨q, hq, hlt, hlead⟩ := h.cont _ hp hc
    rw [not_letterAt_multi (.inr hc)]
    rcases Nat.lt_or_eq_of_le (Nat.le_of_lt_succ hq) with hqp | rfl
    · exact (not_letterAt_multi (.inr ((h.lead q (by omega) hlead).2.1 p hqp (by omega)))).symm
    · exact (not_letterAt_multi (.inl hlead)).symm

/-! ## The walk -/

/-- No walk from `pos` with `left` bytes to count comes to a digit's first filler with a letter in
front of the digit: it has counted all of them before. -/
def Guarded (image tc : Buf) (pos left : Nat) : Prop :=
  ∀ x, x + 2 < pos → isAsciiNumber (image (x + 1)) = true → image (x + 2) = minus →
    isAsciiAlpha (tc x) = true → countIn countsAlpha tc (x + 2) + left ≤ countIn countsAlpha tc pos

/-- Whether the walk stars a byte that has no star. -/
theorem starsAlpha_iff (him : ImageOk image n) {tc : Buf} {tmp left : Nat} (htn : tmp < n)
    (hstars : ∀ i, tc i = image i ∨ tc i = star) (hun : Uniform image tc (tmp + 1)) (hleft : 0 < left)
    (hguard : Guarded image tc (tmp + 1) left) (hns : tc tmp ≠ star) :
    starsAlpha tc tmp = letterAt image tmp := by
  have hself : ∀ i, tc i ≠ star → tc i = image i := fun i h => (hstars i).resolve_right h
  by_cases hm : image tmp = minus
  · obtain ⟨x, -, hor, hxa, h1, h2, -⟩ := him.filler tmp htn hm
    obtain ⟨hf1, hf2⟩ := letterAt_filler hxa h1
    rcases hor with rfl | rfl
    · -- the first filler
      have hx : tc x ≠ star := fun h => hns ((hun x (by omega) (by simp [inner, h1])).mpr h)
      rw [hf1]
      unfold starsAlpha
      rw [hself _ hns, h1, Nat.add_sub_cancel, hself x hx, not_alpha_minus]
      simp only [decide_true, Bool.true_and, Bool.false_or, Nat.le_add_left]
      by_cases hal : isAsciiAlpha (image x) = true
      · simp [hal]
      · have hal : isAsciiAlpha (image x) = false := by simpa using hal
        rw [hal, Bool.false_or]
        by_contra hcon
        have hcon : 2 ≤ x + 1 ∧ isAsciiAlpha (tc (x + 1 - 2)) = true := by simpa using hcon
        obtain ⟨y, rfl⟩ : ∃ y, x = y + 1 := ⟨x - 1, by omega⟩
        rw [show y + 1 + 1 - 2 = y by omega] at hcon
        have hle : countIn countsAlpha tc (y + 2) + left ≤ countIn countsAlpha tc (y + 2 + 1) :=
          hguard y (by omega) (number_of_not_alpha hxa hal) h1 hcon.2
        rw [countIn_succ countsAlpha tc (y + 2), show tc (y + 2) = minus from (hself _ hns).trans h1] at hle
        simp only [show countsAlpha minus = false by decide, Bool.false_eq_true, ↓reduceIte] at hle
        omega
    · -- the second filler
      have hx1 : tc (x + 1) ≠ star := fun h =>
        hns ((hun (x + 1) (by omega) (by simp [inner, h2])).mpr h)
      have hx : tc x ≠ star := fun h => hx1 ((hun x (by omega) (by simp [inner, h1])).mpr h)
      rw [hf2 h2]
      unfold starsAlpha
      rw [hself _ hns, h2, show x + 2 - 1 = x + 1 by omega, Nat.add_sub_cancel, hself _ hx1, h1,
        hself x hx, not_alpha_minus]
      simp
  · unfold starsAlpha
    rw [hself _ hns]
    unfold letterAt
    simp [hm]

/-- A walk from `pos` with `left` bytes to count: it starts on whole characters, finds enough to count, and is
guarded. -/
structure Walking (image tc : Buf) (pos left : Nat) : Prop where
  stars : ∀ i, tc i = image i ∨ tc i = star
  uniform : Uniform image tc pos
  enough : left ≤ countIn countsAlpha tc pos
  guarded : Guarded image tc pos left

/-- The buffer after the walk has been at `tmp`. -/
def starAlpha (tc : Buf) (tmp : Nat) : Buf := if starsAlpha tc tmp then tc.set tmp star else tc

theorem starAlpha_ne (tc : Buf) {tmp i : Nat} (hi : i ≠ tmp) : starAlpha tc tmp i = tc i := by
  unfold starAlpha
  split
  · exact Buf.set_ne _ _ hi
  · rfl

theorem starAlpha_or (tc : Buf) (tmp i : Nat) : starAlpha tc tmp i = tc i ∨ starAlpha tc tmp i = star := by
  by_cases hi : i = tmp
  · unfold starAlpha
    split
    · rw [hi]
      exact .inr (Buf.set_self _ _ _)
    · exact .inl rfl
  · exact .inl (starAlpha_ne tc hi)

theorem starAlpha_countIn (tc : Buf) {tmp k : Nat} (hk : k ≤ tmp) :
    countIn countsAlpha (starAlpha tc tmp) k = countIn countsAlpha tc k := by
  unfold countIn
  rw [Buf.toList_congr fun i hi => starAlpha_ne tc (by omega)]

/-- The byte has a star now if it had one, or is of a letter. -/
theorem Walking.starAlpha_self (him : ImageOk image n) {tc : Buf} {tmp left : Nat} (h : Walking image tc (tmp + 1) left)
    (htmp : tmp < n) (hl : 0 < left) : starAlpha tc tmp tmp = star ↔ tc tmp = star ∨ letterAt image tmp = true := by
  unfold starAlpha
  by_cases hs : tc tmp = star
  · simp only [hs, true_or, iff_true]
    split
    · exact Buf.set_self _ _ _
    · exact hs
  · rw [← starsAlpha_iff him htmp h.stars h.uniform hl h.guarded hs]
    split
    · simp [*]
    · simp [*]

/-- The walk goes on from the byte before. -/
theorem Walking.step {tc : Buf} {tmp left : Nat} (h : Walking image tc (tmp + 1) left) (hl : 0 < left) :
    Walking image (starAlpha tc tmp) tmp (if countsAlpha (tc tmp) then left - 1 else left) := by
  have hsucc := countIn_succ countsAlpha tc tmp
  have henough := h.enough
  refine { stars := fun i => ?_, uniform := fun p hp hin => ?_, enough := ?_, guarded := fun x hx hd hm ha => ?_ }
  · rcases starAlpha_or tc tmp i with heq | hstar
    · rw [heq]
      exact h.stars i
    · exact .inr hstar
  · rw [starAlpha_ne tc (by omega), starAlpha_ne tc (by omega)]
    exact h.uniform p (by omega) hin
  · rw [starAlpha_countIn tc (Nat.le_refl _)]
    split at hsucc
    · rw [if_pos (by assumption)]
      omega
    · rw [if_neg (by assumption)]
      omega
  · rw [starAlpha_ne tc (by omega)] at ha
    have hcount := h.guarded x (by omega) hd hm ha
    rw [starAlpha_countIn tc (Nat.le_of_lt hx), starAlpha_countIn tc (Nat.le_refl _)]
    split at hsucc
    · rw [if_pos (by assumption)]
      omega
    · rw [if_neg (by assumption)]
      omega

/-- A guarded walk stars the letters, with their fillers, from some byte that counts on. -/
theorem walk_alpha (him : ImageOk image n) (pos : Nat) : ∀ {left : Nat} {tc : Buf}, pos ≤ n →
    Walking image tc pos left →
    ∃ tc' lo, walk countsAlpha starsAlpha pos left tc = some tc' ∧ lo ≤ pos ∧
      (0 < left → lo < pos ∧ countsAlpha (tc lo) = true) ∧
      (∀ i, tc' i = star ↔ tc i = star ∨ (lo ≤ i ∧ i < pos ∧ letterAt image i = true)) := by
  induction pos with
  | zero =>
      intro left tc _ h
      obtain rfl : left = 0 := Nat.le_zero.mp h.enough
      exact ⟨tc, 0, rfl, Nat.le_refl _, fun h => absurd h (Nat.lt_irrefl 0),
        fun i => ⟨.inl, fun h => h.elim id fun h => absurd h.2.1 (Nat.not_lt_zero i)⟩⟩
  | succ tmp ih =>
      intro left tc hpos h
      unfold walk
      rcases Nat.eq_zero_or_pos left with hl | hl
      · rw [if_pos hl]
        exact ⟨tc, tmp + 1, rfl, Nat.le_refl _, fun h => by omega,
          fun i => ⟨.inl, fun h => h.elim id fun h => by omega⟩⟩
      rw [if_neg (by omega)]
      change ∃ tc' lo, walk countsAlpha starsAlpha tmp _ (starAlpha tc tmp) = some tc' ∧ _
      have hself := h.starAlpha_self him hpos hl
      have hstep := h.step hl
      generalize hleft : (if countsAlpha (tc tmp) then left - 1 else left) = left' at hstep ⊢
      obtain ⟨tc', lo, hwalk, hlo, hfirst, hstar⟩ := ih (by omega) hstep
      rcases Nat.eq_zero_or_pos left' with hz | hz
      · -- the byte at `tmp` was the last one to count
        have hc : countsAlpha (tc tmp) = true := by
          by_contra hc
          rw [if_neg hc] at hleft
          omega
        subst hz
        have hend : walk countsAlpha starsAlpha tmp 0 (starAlpha tc tmp) = some (starAlpha tc tmp) := by
          cases tmp <;> simp [walk]
        refine ⟨starAlpha tc tmp, tmp, hend, Nat.le_succ _, fun _ => ⟨Nat.lt_succ_self _, hc⟩, fun i => ?_⟩
        by_cases hi : i = tmp
        · subst hi
          simp [hself]
        · rw [starAlpha_ne tc hi]
          exact ⟨.inl, fun h => h.elim id fun h => by omega⟩
      · obtain ⟨h1, h2⟩ := hfirst hz
        rw [starAlpha_ne tc (by omega)] at h2
        refine ⟨tc', lo, hwalk, by omega, fun _ => ⟨by omega, h2⟩, fun i => ?_⟩
        rw [hstar i]
        by_cases hi : i = tmp
        · subst hi
          rw [hself]
          have hin : lo ≤ i ∧ i < i + 1 := ⟨hlo, Nat.lt_succ_self _⟩
          simp [hin]
        · rw [starAlpha_ne tc hi]
          refine or_congr_right ?_
          constructor
          · rintro ⟨h1, h2, h3⟩
            exact ⟨h1, Nat.lt_succ_of_lt h2, h3⟩
          · rintro ⟨h1, h2, h3⟩
            exact ⟨h1, by omega, h3⟩

/-! ## The round -/

/-- The bytes read so far are the letters of the image. -/
theorem RoundInv.letters {ps : List Nat} {t : Nat} {tc : Buf}
    (h : RoundInv roundAlpha image n ps t tc) : ps.map image = letters (image.toList t) :=
  h.filtered not_alpha_minus

/-- Every letter of a range counts, with a star or without. -/
theorem letters_le_countIn {tc : Buf} (hstars : ∀ i, tc i = image i ∨ tc i = star) {s t : Nat}
    (h : s ≤ t) : countIn countsAlpha tc s +
      (letters ((List.range' s (t - s)).map image)).length ≤ countIn countsAlpha tc t := by
  refine filter_le_countIn h fun i _ _ hi => ?_
  rcases hstars i with h | h
  · rw [h]
    simp [countsAlpha, hi]
  · rw [h]
    rfl

/-- Unless a walk looks behind a digit, the walk of a match is guarded. -/
theorem guarded_of_hit (hno : ¬ LookBehind W (image.toList n)) {ps : List Nat}
    {t : Nat} {tc : Buf} {w : List UInt8} (ht : t < n) (hinv : RoundInv roundAlpha image n ps t tc)
    (hold : ∀ p ∈ ps, Hit W (letters (image.toList (p + 1))) → tc p = star)
    (hk : isAsciiAlpha (image t) = true) (hwW : w ∈ W) (hsuf : w <:+ (ps ++ [t]).map image) :
    Guarded image tc (matchEnd roundAlpha image n t + 1) w.length := by
  obtain ⟨hte, hen, hfill⟩ := matchEnd_spec roundAlpha image ht
  generalize matchEnd roundAlpha image n t = e at hte hen hfill
  intro x hx hd hm ha
  by_contra hcount
  have hstars : ∀ i, tc i = image i ∨ tc i = star := fun i => (hinv.stars i).imp_right And.right
  have hdigit : isAsciiAlpha (image (x + 1)) = false ∧ image (x + 1) ≠ minus := by
    generalize image (x + 1) = d at hd
    revert hd
    exact forall_byte (P := fun d => isAsciiNumber d = true → isAsciiAlpha d = false ∧ d ≠ minus)
      (by decide +kernel) d
  have hxt : x + 2 < t := by
    by_contra hcon
    rcases Nat.lt_trichotomy t (x + 1) with hlt | rfl | hgt
    · exact hdigit.2 (hfill (x + 1) hlt (by omega)).2
    · rw [hdigit.1] at hk
      exact Bool.false_ne_true hk
    · obtain rfl : t = x + 2 := by omega
      rw [hm, not_alpha_minus] at hk
      exact Bool.false_ne_true hk
  have hxs : tc x ≠ star := alpha_ne_star ha
  have hax : isAsciiAlpha (image x) = true := by
    rwa [(hstars x).resolve_right hxs] at ha
  have hnohit : ¬ Hit W (letters (image.toList (x + 1))) := fun hh => hxs (hold x
    ((hinv.all x (by omega) hax).resolve_right fun h => by
      rw [h.2, not_alpha_minus] at hax
      exact Bool.false_ne_true hax) hh)
  -- the letters in front of the digit and those behind it
  have hfront : letters (image.toList (x + 3)) = letters (image.toList (x + 1)) := by
    unfold letters
    rw [toList_succ image (x + 2), toList_succ image (x + 1), List.filter_append, List.filter_append]
    simp [hdigit.1, hm, not_alpha_minus]
  have hread : (ps ++ [t]).map image = letters (image.toList (x + 1)) ++
      letters ((List.range' (x + 3) (t + 1 - (x + 3))).map image) := by
    rw [List.map_append, hinv.letters, ← hfront]
    unfold letters
    rw [← List.filter_append, ← toList_split image (show x + 3 ≤ t + 1 by omega), toList_succ,
      List.filter_append, List.map_cons, List.map_nil, List.filter_cons_of_pos hk, List.filter_nil]
  generalize hy : letters ((List.range' (x + 3) (t + 1 - (x + 3))).map image) = y at hread
  have hyne : y ≠ [] := by
    rw [← hy, show t + 1 - (x + 3) = (t - (x + 3)) + 1 by omega, List.range'_concat, letters,
      List.map_append, List.filter_append]
    simp [show x + 3 + (t - (x + 3)) = t by omega, hk]
  have hylen : y.length < w.length := by
    have h1 := letters_le_countIn hstars (show x + 3 ≤ t + 1 by omega)
    have h2 := countIn_mono countsAlpha tc (show t + 1 ≤ e + 1 by omega)
    have h3 := countIn_mono countsAlpha tc (show x + 2 ≤ x + 3 by omega)
    rw [hy] at h1
    omega
  rw [hread] at hsuf
  obtain ⟨x', rfl⟩ := List.suffix_of_suffix_length_le (List.suffix_append _ y) hsuf hylen.le
  refine hno ⟨image.toList x, image x, image (x + 1),
    (List.range' (x + 3) (n - (x + 3))).map image, ?_, hax, hd, ⟨x', y, hwW, ?_, hyne, ?_, ?_⟩, ?_⟩
  · rw [toList_split image (show x + 3 ≤ n by omega), toList_succ, toList_succ, toList_succ, hm]
    simp
  · rintro rfl
    exact absurd hylen (Nat.lt_irrefl _)
  · rw [← toList_succ]
    exact List.suffix_append_self_iff.mp hsuf
  · rw [← hy, show n - (x + 3) = (t + 1 - (x + 3)) + (n - (t + 1)) by omega, ← List.range'_append,
      List.map_append, letters, letters, List.filter_append]
    exact List.prefix_append _ _
  · rwa [← toList_succ]

/-- A starred byte of a letter is in a character whose bytes up to it are starred. -/
theorem star_letter (him : ImageOk image n) {tc : Buf} (hun : Uniform image tc n) {i : Nat} (hi : i < n)
    (hstar : tc i = star) (hletter : letterAt image i = true) :
    ∃ x, x ≤ i ∧ inner (image x) = false ∧ ∀ j, x ≤ j → j < i → tc j = star := by
  by_cases hm : image i = minus
  · obtain ⟨x, -, hor, hxa, h1, h2, -⟩ := him.filler i hi hm
    obtain ⟨hx, -, -, hxc⟩ := alnum_byte hxa
    refine ⟨x, by omega, by simp [inner, hx, hxc], fun j hj1 hj2 => ?_⟩
    rcases hor with rfl | rfl
    · obtain rfl : j = x := by omega
      exact (hun j hi (by simp [inner, h1])).mp hstar
    · have hx1 : tc (x + 1) = star := (hun (x + 1) hi (by simp [inner, h2])).mp hstar
      obtain rfl | rfl : j = x ∨ j = x + 1 := by omega
      · exact (hun j (by omega) (by simp [inner, h1])).mp hx1
      · exact hx1
  · have hal : isAsciiAlpha (image i) = true := by
      unfold letterAt at hletter
      simpa [hm] using hletter
    obtain ⟨hx, -, -, hxc⟩ := alnum_byte (alpha_alnum hal)
    exact ⟨i, Nat.le_refl _, by simp [inner, hx, hxc], fun j h1 h2 => by omega⟩

/-- What the second round leaves, unless a walk looks behind a digit. -/
theorem roundAlpha_uniform {a : AcsmStruct} (h : Compiled W a) (him : ImageOk image n)
    (hstarless : ∀ i, i < n → image i ≠ star) (hno : ¬ LookBehind W (image.toList n)) (flag : Int) :
    ∃ tc' flag', replaceRound a roundAlpha n image flag = some (tc', flag') ∧
      Uniform image tc' n ∧ ∀ p, p < n → tc' p = star → image p ≠ plus := by
  obtain ⟨ps, tc', flag', heq, -, hun, hstars, -⟩ := @replaceLoop_rule W a roundAlpha image n h
    (roundOk_alpha W)
    (fun ps _ tc _ => Uniform image tc n ∧
      (∀ p, p < n → tc p = star → letterAt image p = true) ∧
      ∀ p ∈ ps, Hit W (letters (image.toList (p + 1))) → tc p = star)
    (fun _ _ _ _ _ _ hP _ => hP)
    (by
      rintro ps t tc flag' - hinv ⟨hun, hstars, hold⟩ hk hnohit
      refine ⟨hun, hstars, fun p hp hhit => ?_⟩
      rcases List.mem_append.mp hp with hp | hp
      · exact hold p hp hhit
      · obtain rfl := List.mem_singleton.mp hp
        have hk : isAsciiAlpha (image p) = true := hk
        refine absurd ?_ hnohit
        rw [List.map_append, hinv.letters]
        rw [toList_succ, letters, List.filter_append] at hhit
        rwa [List.filter_cons_of_pos hk] at hhit)
    (by
      rintro ps t tc flag' w tc' ht hinv ⟨hun, hstars, hold⟩ hk hlong hwalk
      have hguard := guarded_of_hit hno ht hinv hold hk hlong.1 hlong.2.1
      have henough := hinv.enough (roundOk_alpha W) hk hlong.1 hlong.2.1
        (matchEnd_spec roundAlpha image ht).1
      have htail := him.after_fillers ht (.inl (alpha_alnum hk)) (alnum_byte (alpha_alnum hk)).1
      obtain ⟨hte, hen, hfill⟩ := matchEnd_spec roundAlpha image ht
      change matchEnd roundAlpha image n t + 1 < n →
        inner (image (matchEnd roundAlpha image n t + 1)) = false at htail
      generalize matchEnd roundAlpha image n t = e at *
      have hpos := List.length_pos_of_ne_nil (h.words.nonempty w hlong.1)
      obtain ⟨tc'', lo, hwalk', hlo, hfirst, hwrote⟩ := @walk_alpha image n him (e + 1) w.length tc hen
        ⟨fun i => (hinv.stars i).imp_right And.right, fun p hp hin => hun p (by omega) hin, henough, hguard⟩
      obtain rfl : tc' = tc'' := Option.some.inj (hwalk.symm.trans hwalk')
      obtain ⟨hlt, hcount⟩ := hfirst hpos
      have hlot : lo ≤ t := by
        by_contra hcon
        have := (hfill lo (by omega) (by omega)).2
        rw [hinv.tail lo (by omega), this] at hcount
        exact absurd hcount (by decide)
      -- the walk may end on a starred filler: the character of the filler is starred in full
      obtain ⟨x, hx, hxin, hxstar⟩ : ∃ x, x ≤ lo ∧ inner (image x) = false ∧
          ∀ i, x ≤ i → i < lo → tc i = star := by
        rcases hinv.stars lo with heq | ⟨-, heq⟩
        · refine ⟨lo, Nat.le_refl _, ?_, fun i h1 h2 => by omega⟩
          have hal : isAsciiAlpha (image lo) = true := by
            rw [heq] at hcount
            simpa [countsAlpha, hstarless lo (by omega)] using hcount
          obtain ⟨h1, -, -, h4⟩ := alnum_byte (alpha_alnum hal)
          simp [inner, h1, h4]
        · exact star_letter him hun (by omega) heq (hstars lo (by omega) heq)
      refine ⟨@Uniform.extend image tc tc' n hun (fun i => letterAt image i = true) x (e + 1)
        (fun p hp hin => by rw [him.letterAt hp hin]) hxin htail fun i => ?_,
        fun p hp hstar => ?_, fun p hp hhit => ?_⟩
      · rw [hwrote i]
        constructor
        · exact Or.imp_right fun h => ⟨hx.trans h.1, h.2⟩
        · rintro (h | ⟨h1, h2⟩)
          · exact .inl h
          · rcases Nat.lt_or_ge i lo with h | h
            · exact .inl (hxstar i h1 h)
            · exact .inr ⟨h, h2⟩
      · rcases (hwrote p).mp hstar with h | h
        · exact hstars p hp h
        · exact h.2.2
      · rw [hwrote p]
        rcases List.mem_append.mp hp with hp | hp
        · exact .inl (hold p hp hhit)
        · obtain rfl := List.mem_singleton.mp hp
          exact .inr ⟨hlot, by omega, letterAt_alpha hk⟩)
    n _ _ _ _ (Nat.le_add_left _ _) (RoundInv.init roundAlpha image n)
    ⟨fun p hp hin => iff_of_false (hstarless _ hp) (hstarless _ (by omega)),
      fun p hp hstar => absurd hstar (hstarless p hp), fun p hp => absurd hp List.not_mem_nil⟩
  refine ⟨tc', flag', heq, hun, fun p hp hstar hplus => ?_⟩
  have := hstars p hp hstar
  unfold letterAt at this
  rw [hplus] at this
  simp [show isAsciiAlpha plus = false by decide, show plus ≠ minus by decide] at this

end Taomee.Dirty
