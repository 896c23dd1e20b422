import Taomee.Dirty.Lemmas.Reach
import Taomee.Dirty.Lemmas.RoundAlpha
import Taomee.Dirty.Lemmas.RoundOther

/-!
# What the second and third round cover

A round reads the bytes of one kind. At each of them it takes the longest word that ends there, and
that word stands on a stretch of the text. The walk of the third round covers the stretch. The walk of
the second round counts a star on a filler too, and such a star can keep it from the first letters.
-/

namespace Taomee.Dirty

open Taomee.Words

/-! ## Stretches -/

/-- The byte of a text at a position. -/
def byteAt (r : List UInt8) (i : Nat) : UInt8 := r.getD i 0

/-- Among the bytes of the kind `keep`, the longest word that ends at `t` begins at `f`. -/
def Stretch (W : List (List UInt8)) (keep : UInt8 → Bool) (r : List UInt8) (f t : Nat) : Prop :=
  f ≤ t ∧ t < r.length ∧ keep (byteAt r f) = true ∧ keep (byteAt r t) = true ∧
    LongestHit W ((r.take (t + 1)).filter keep) (((r.take (t + 1)).drop f).filter keep)

/-- The position `p` is on a stretch that ends at `t`. -/
def OnStretch (W : List (List UInt8)) (keep : UInt8 → Bool) (r : List UInt8) (p t : Nat) : Prop :=
  p ≤ t ∧ ∃ f ≤ p, Stretch W keep r f t

/-- A walk of the second round that comes to the filler at `q` stars it: it is a filler of a letter,
or the first filler of a digit behind a letter at which no word ends. -/
def TakenFiller (W : List (List UInt8)) (r : List UInt8) (q : Nat) : Prop :=
  byteAt r q = minus ∧
    ((1 ≤ q ∧ isAsciiAlpha (byteAt r (q - 1)) = true) ∨
      (2 ≤ q ∧ isAsciiAlpha (byteAt r (q - 2)) = true ∧
        (byteAt r (q - 1) = minus ∨ ¬ Hit W (letters (r.take (q - 1))))))

/-- Between `p` and `t` a stretch of letters ends that begins behind `p`, with a star on a filler. -/
def Interrupted (W : List (List UInt8)) (r : List UInt8) (p t : Nat) : Prop :=
  ∃ s < t, ∃ f ≤ s, p < f ∧ Stretch W isAsciiAlpha r f s ∧
    ∃ q ≤ skipFillers (byteAt r) r.length s, f ≤ q ∧ TakenFiller W r q

/-- Some letter is on a stretch, and every stretch that it is on is interrupted behind it. -/
def CutShort (W : List (List UInt8)) (r : List UInt8) : Prop :=
  ∃ p < r.length, isAsciiAlpha (byteAt r p) = true ∧
    (∃ t < r.length, OnStretch W isAsciiAlpha r p t) ∧
    ∀ t < r.length, OnStretch W isAsciiAlpha r p t → Interrupted W r p t

instance (W : List (List UInt8)) (keep : UInt8 → Bool) (r : List UInt8) (f t : Nat) :
    Decidable (Stretch W keep r f t) :=
  inferInstanceAs (Decidable (_ ∧ _))

instance (W : List (List UInt8)) (keep : UInt8 → Bool) (r : List UInt8) (p t : Nat) :
    Decidable (OnStretch W keep r p t) :=
  inferInstanceAs (Decidable (_ ∧ _))

instance (W : List (List UInt8)) (r : List UInt8) (q : Nat) : Decidable (TakenFiller W r q) :=
  inferInstanceAs (Decidable (_ ∧ _))

instance (W : List (List UInt8)) (r : List UInt8) (p t : Nat) : Decidable (Interrupted W r p t) :=
  inferInstanceAs (Decidable (∃ s < t, ∃ f ≤ s, p < f ∧ Stretch W isAsciiAlpha r f s ∧
    ∃ q ≤ skipFillers (byteAt r) r.length s, f ≤ q ∧ TakenFiller W r q))

instance (W : List (List UInt8)) (r : List UInt8) : Decidable (CutShort W r) :=
  inferInstanceAs (Decidable (∃ p < r.length, isAsciiAlpha (byteAt r p) = true ∧
    (∃ t < r.length, OnStretch W isAsciiAlpha r p t) ∧
    ∀ t < r.length, OnStretch W isAsciiAlpha r p t → Interrupted W r p t))

variable {W : List (List UInt8)} {keep : UInt8 → Bool} {image : Buf} {n : Nat}

theorem byteAt_toList {i : Nat} (h : i < n) : byteAt (image.toList n) i = image i := by
  unfold byteAt
  rw [List.getD_eq_getElem?_getD, Buf.getElem?_toList image h, Option.getD_some]

theorem toList_byteAt (r : List UInt8) : Buf.toList (byteAt r) r.length = r := by
  apply List.ext_getElem?
  intro i
  rcases Nat.lt_or_ge i r.length with hi | hi
  · rw [Buf.getElem?_toList _ hi]
    unfold byteAt
    rw [List.getD_eq_getElem?_getD, List.getElem?_eq_getElem hi, Option.getD_some]
  · rw [List.getElem?_eq_none hi, List.getElem?_eq_none (by rw [Buf.toList_length]; exact hi)]

theorem toList_take {t : Nat} (h : t ≤ n) : (image.toList n).take t = image.toList t := by
  unfold Buf.toList
  rw [← List.map_take, List.take_range, Nat.min_eq_left h]

theorem toList_drop {f t : Nat} (h : f ≤ t) :
    (image.toList t).drop f = (List.range' f (t - f)).map image := by
  rw [toList_split image h, List.drop_left' (Buf.toList_length image f)]

theorem filter_toList_length (keep : UInt8 → Bool) (image : Buf) (t : Nat) :
    ((image.toList t).filter keep).length = countIn keep image t := by
  unfold countIn
  rw [List.countP_eq_length_filter]

theorem Stretch.length {f t : Nat} (h : Stretch W keep (image.toList n) f t) :
    countIn keep image (t + 1) = countIn keep image f +
      ((((image.toList n).take (t + 1)).drop f).filter keep).length := by
  obtain ⟨hft, ht, -⟩ := h
  rw [Buf.toList_length] at ht
  rw [toList_take ht, toList_drop (Nat.le_succ_of_le hft),
    filter_range_length keep image (Nat.le_succ_of_le hft)]

theorem Stretch.bytes {f t : Nat} (h : Stretch W keep (image.toList n) f t) :
    f ≤ t ∧ t < n ∧ keep (image f) = true ∧ keep (image t) = true := by
  obtain ⟨hft, ht, hkf, hkt, -⟩ := h
  rw [Buf.toList_length] at ht
  rw [byteAt_toList (by omega)] at hkf
  rw [byteAt_toList ht] at hkt
  exact ⟨hft, ht, hkf, hkt⟩

theorem countIn_lt {p q : Nat} (h : p < q) (hk : keep (image p) = true) :
    countIn keep image p < countIn keep image q := by
  have hmono := countIn_mono keep image (show p + 1 ≤ q from h)
  rw [countIn_succ, if_pos hk] at hmono
  exact hmono

theorem Stretch.unique {f f' t : Nat} (h : Stretch W keep (image.toList n) f t)
    (h' : Stretch W keep (image.toList n) f' t) : f = f' := by
  have hlen := h.length
  have hlen' := h'.length
  rw [h.2.2.2.2.unique h'.2.2.2.2] at hlen
  rcases Nat.lt_trichotomy f f' with hlt | heq | hgt
  · have := countIn_lt hlt h.bytes.2.2.1
    omega
  · exact heq
  · have := countIn_lt hgt h'.bytes.2.2.1
    omega

/-- A word that ends the bytes of a kind ends the text from one of them on. -/
theorem suffix_filter {l w : List UInt8} (hw : w <:+ l.filter keep) (hne : w ≠ []) :
    ∃ k, k < l.length ∧ keep (byteAt l k) = true ∧ (l.drop k).filter keep = w := by
  induction l with
  | nil => exact absurd (List.suffix_nil.mp hw) hne
  | cons c l ih =>
      have hnext : w <:+ l.filter keep → ∃ k, k < (c :: l).length ∧ keep (byteAt (c :: l) k) = true ∧
          ((c :: l).drop k).filter keep = w := by
        intro h
        obtain ⟨k, hk, hkk, hdrop⟩ := ih h
        exact ⟨k + 1, Nat.succ_lt_succ hk, by simpa [byteAt] using hkk, hdrop⟩
      by_cases hc : keep c = true
      · rw [List.filter_cons_of_pos hc, List.suffix_cons_iff] at hw
        rcases hw with rfl | hw
        · exact ⟨0, Nat.succ_pos _, hc, List.filter_cons_of_pos hc⟩
        · exact hnext hw
      · rw [List.filter_cons_of_neg hc] at hw
        exact hnext hw

/-- Where a word ends, a stretch ends. -/
theorem exists_stretch (hW : [] ∉ W) {r : List UInt8} {t : Nat} (ht : t < r.length)
    (hk : keep (byteAt r t) = true) (hhit : Hit W ((r.take (t + 1)).filter keep)) :
    ∃ f, Stretch W keep r f t := by
  obtain ⟨w, hw⟩ := hhit.exists_longest
  obtain ⟨f, hf, hkf, hdrop⟩ := suffix_filter hw.2.1 fun h => hW (h ▸ hw.1)
  rw [List.length_take] at hf
  have hget : byteAt (r.take (t + 1)) f = byteAt r f := by
    unfold byteAt
    rw [List.getD_eq_getElem?_getD, List.getD_eq_getElem?_getD, List.getElem?_take_of_lt (by omega)]
  rw [hget] at hkf
  exact ⟨f, by omega, ht, hkf, hk, by rwa [hdrop]⟩

theorem stretch_of_longest (hW : [] ∉ W) {t : Nat} (ht : t < n) (hk : keep (image t) = true)
    {u w : List UInt8} (hu : u = (image.toList (t + 1)).filter keep) (hw : LongestHit W u w) :
    ∃ f, Stretch W keep (image.toList n) f t ∧
      countIn keep image (t + 1) = countIn keep image f + w.length := by
  subst hu
  rw [← @toList_take image n (t + 1) ht] at hw
  obtain ⟨f, hf⟩ := @exists_stretch W keep hW (image.toList n) t (by rwa [Buf.toList_length])
    (by rwa [byteAt_toList ht]) hw.hit
  refine ⟨f, hf, ?_⟩
  rw [hf.length, hf.2.2.2.2.unique hw]

/-- Where no word ends, no stretch ends. -/
theorem Stretch.hit {f t : Nat} (h : Stretch W keep (image.toList n) f t) {ps : List Nat} (ht : t < n)
    (hk : keep (image t) = true) (hps : ps.map image = (image.toList t).filter keep) :
    Hit W ((ps ++ [t]).map image) := by
  have hhit := h.2.2.2.2.hit
  rwa [toList_take ht, toList_succ, List.filter_append, List.filter_cons_of_pos hk, ← hps,
    List.filter_nil, ← List.map_singleton, ← List.map_append] at hhit

/-! ## Walks over a stretch -/

variable {r : Round} {tc tc' : Buf} {ps : List Nat} {t : Nat} {w : List UInt8}

/-- What counts in a range is no more than what the image holds of a kind that all that counts has. -/
theorem countIn_le_add {K count : UInt8 → Bool} {s t : Nat} (h : s ≤ t)
    (hcount : ∀ i, s ≤ i → i < t → count (tc i) = true → K (image i) = true) :
    countIn count tc t + countIn K image s ≤ countIn count tc s + countIn K image t := by
  have := @countIn_add_le tc image count K s t h hcount
  omega

/-- A walk over a stretch stars nothing in front of it. -/
theorem walk_in_stretch (hback : Backward r.write) (ht : t < n)
    (hcount : ∀ i, r.keep (image i) = true → r.count (tc i) = true) {f : Nat} (hft : f ≤ t)
    (hlen : countIn r.keep image (t + 1) = countIn r.keep image f + w.length)
    (hwalk : walk r.count r.write (matchEnd r image n t + 1) w.length tc = some tc') {i : Nat}
    (hi : tc' i ≠ tc i) : f ≤ i ∧ i ≤ matchEnd r image n t ∧ r.write tc i = true := by
  obtain ⟨hpos, hreach, hwrite⟩ := walk_star hback hwalk hi
  have hte := (matchEnd_spec r image ht).1
  have hword := countIn_add_le (show f ≤ t + 1 by omega) fun i _ _ => hcount i
  have hmono := countIn_mono r.count tc (show t + 1 ≤ matchEnd r image n t + 1 by omega)
  refine ⟨?_, Nat.le_of_lt_succ hpos, hwrite⟩
  by_contra hlt
  have := countIn_mono r.count tc (show i + 1 ≤ f by omega)
  omega

/-- A walk comes to the position `p` of its stretch, when nothing but the round's kind counts behind `p`. -/
theorem walk_covers (hback : Backward r.write) (ht : t < n) (hm : r.keep minus = false) {f p : Nat}
    (hfp : f ≤ p) (hpt : p ≤ t) (hk : r.keep (image p) = true)
    (hlen : countIn r.keep image (t + 1) = countIn r.keep image f + w.length)
    (hcount : ∀ i, p < i → i ≤ matchEnd r image n t → r.count (tc i) = true → r.keep (image i) = true)
    (hwrite : tc p = star ∨ r.write tc p = true)
    (hwalk : walk r.count r.write (matchEnd r image n t + 1) w.length tc = some tc') : tc' p = star := by
  obtain ⟨hte, -, hfill⟩ := matchEnd_spec r image ht
  have hbehind := @countIn_le_add image tc r.keep r.count (p + 1) (matchEnd r image n t + 1) (by omega)
    fun i h1 h2 => hcount i h1 (Nat.le_of_lt_succ h2)
  have htail : countIn r.keep image (matchEnd r image n t + 1) = countIn r.keep image (t + 1) :=
    countIn_of_none (by omega) fun i h1 h2 => by
      rw [(hfill i h1 (Nat.le_of_lt_succ h2)).2, hm]
  have hfront := countIn_mono r.keep image hfp
  have hself := countIn_lt (show p < p + 1 by omega) hk
  rw [walk_reach hback _ hwalk p]
  rcases hwrite with hs | hwr
  · split
    · rfl
    · exact hs
  · exact if_pos ⟨by omega, by omega, hwr⟩

theorem walk_keeps (hback : Backward r.write) {pos left i : Nat}
    (hwalk : walk r.count r.write pos left tc = some tc') (h : tc i = star) : tc' i = star := by
  rw [walk_reach hback _ hwalk i]
  split
  · rfl
  · exact h

/-! ## The third round -/

/-- The stretches read so far are starred, and nothing but bytes of their kind is. -/
structure OtherStars (W : List (List UInt8)) (image : Buf) (n t : Nat) (tc : Buf) : Prop where
  covers : ∀ s, s < t → ∀ p, OnStretch W roundOther.keep (image.toList n) p s →
    roundOther.keep (image p) = true → tc p = star
  kinds : ∀ q, q < n → tc q = star → roundOther.keep (image q) = true

theorem OtherStars.hit (h : OtherStars W image n t tc) (hW : [] ∉ W) (ht : t < n)
    (hinv : RoundInv roundOther image n ps t tc) (hk : roundOther.keep (image t) = true)
    (hlong : LongestHit W ((ps ++ [t]).map image) w)
    (hwalk : walk countsOther starsOther (t + 1) w.length tc = some tc') :
    OtherStars W image n (t + 1) tc' := by
  have hcount : ∀ i, i < n → countsOther (tc i) = true → roundOther.keep (image i) = true := by
    intro i hi hc
    rcases hinv.stars i with heq | ⟨-, hstar⟩
    · rwa [heq, countsOther_eq] at hc
    · exact h.kinds i hi hstar
  refine ⟨fun s hs p hon hkp => ?_, fun q hq hstar => ?_⟩
  · rcases Nat.lt_or_eq_of_le (Nat.le_of_lt_succ hs) with hlt | rfl
    · exact walk_keeps (r := roundOther) backward_other hwalk (h.covers s hlt p hon hkp)
    · obtain ⟨hps, f, hfp, hf⟩ := hon
      obtain ⟨f', hf', hlen⟩ := stretch_of_longest hW ht hk (by
        rw [List.map_append, hinv.filtered not_keepOther_minus, toList_succ, List.filter_append,
          List.map_cons, List.map_nil, List.filter_cons_of_pos hk, List.filter_nil]) hlong
      obtain rfl := hf.unique hf'
      refine walk_covers (r := roundOther) backward_other ht not_keepOther_minus hfp hps hkp hlen
        (fun i _ hi => hcount i (Nat.lt_of_le_of_lt hi ht)) ?_ hwalk
      rcases hinv.stars p with heq | ⟨-, hstar⟩
      · right
        change countsOther (tc p) = true
        rwa [heq, countsOther_eq]
      · exact .inl hstar
  · by_cases hne : tc' q = tc q
    · exact h.kinds q hq (hne ▸ hstar)
    · exact hcount q hq (walk_star backward_other hwalk hne).2.2

theorem roundOther_covers {a : AcsmStruct} (h : Compiled W a) (hstarless : ∀ i, i < n → image i ≠ star)
    {flag flag' : Int} (heq : replaceRound a roundOther n image flag = some (tc', flag')) {p t : Nat}
    (hon : OnStretch W roundOther.keep (image.toList n) p t) (hk : roundOther.keep (image p) = true) :
    tc' p = star := by
  obtain ⟨ps, -, hP⟩ := replaceRound_rule h (roundOk_other W) (fun _ t tc _ => OtherStars W image n t tc)
    (by
      intro ps t tc flag ht hinv hP hnk
      refine ⟨fun s hs p hon hkp => ?_, hP.kinds⟩
      rcases Nat.lt_or_eq_of_le (Nat.le_of_lt_succ hs) with hlt | rfl
      · exact hP.covers s hlt p hon hkp
      · obtain ⟨-, f, -, hf⟩ := hon
        exact absurd hf.bytes.2.2.2 hnk)
    (by
      intro ps t tc flag ht hinv hP hkt hnohit
      refine ⟨fun s hs p hon hkp => ?_, hP.kinds⟩
      rcases Nat.lt_or_eq_of_le (Nat.le_of_lt_succ hs) with hlt | rfl
      · exact hP.covers s hlt p hon hkp
      · obtain ⟨-, f, -, hf⟩ := hon
        exact absurd (hf.hit ht hkt (hinv.filtered not_keepOther_minus)) hnohit)
    (fun ps t tc flag w tc' ht hinv hP hkt hlong hwalk =>
      hP.hit (fun hmem => h.words.nonempty _ hmem rfl) ht hinv hkt hlong hwalk)
    heq ⟨fun s hs => absurd hs (Nat.not_lt_zero s), fun q hq hstar => absurd hstar (hstarless q hq)⟩
  obtain ⟨-, f, -, hf⟩ := id hon
  exact hP.covers t hf.bytes.2.1 p hon hk

/-! ## The second round -/

/-- What the second round has starred: letters and fillers of the stretches read so far, and of these
stretches each letter behind which no other stretch put a star on a filler. -/
structure LetterStars (W : List (List UInt8)) (image : Buf) (n t : Nat) (tc : Buf) : Prop where
  covers : ∀ s, s < t → ∀ p, OnStretch W isAsciiAlpha (image.toList n) p s →
    isAsciiAlpha (image p) = true → ¬ Interrupted W (image.toList n) p s → tc p = star
  reach : ∀ q, q < n → tc q = star → ∃ s < t, ∃ f ≤ s, Stretch W isAsciiAlpha (image.toList n) f s ∧
    f ≤ q ∧ q ≤ skipFillers image n s
  kinds : ∀ q, q < n → tc q = star → isAsciiAlpha (image q) = true ∨ TakenFiller W (image.toList n) q

theorem skipFillers_byteAt (s : Nat) :
    skipFillers (byteAt (image.toList n)) (image.toList n).length s = skipFillers image n s := by
  have hsame : ∀ i, (i < n ∧ byteAt (image.toList n) i = minus) ↔ (i < n ∧ image i = minus) := fun i =>
    and_congr_right fun hi => by rw [byteAt_toList hi]
  unfold skipFillers
  rw [Buf.toList_length]
  simp only [hsame]

theorem Interrupted.mono {r : List UInt8} {p s t : Nat} (h : Interrupted W r p s) (hst : s ≤ t) :
    Interrupted W r p t := by
  obtain ⟨s', hs', h⟩ := h
  exact ⟨s', Nat.lt_of_lt_of_le hs' hst, h⟩

/-- A letter on a stretch that no other stretch interrupts is starred when the walk comes to the end of
the stretch. -/
theorem LetterStars.own (h : LetterStars W image n t tc) (ht : t < n)
    (hinv : RoundInv roundAlpha image n ps t tc) {f p : Nat}
    (hfp : f ≤ p) (hpt : p ≤ t) (hkp : isAsciiAlpha (image p) = true)
    (hfree : ¬ Interrupted W (image.toList n) p t)
    (hlen : countIn isAsciiAlpha image (t + 1) = countIn isAsciiAlpha image f + w.length)
    (hwalk : walk countsAlpha starsAlpha (matchEnd roundAlpha image n t + 1) w.length tc = some tc') :
    tc' p = star := by
  obtain ⟨hte, hen, hfill⟩ := matchEnd_spec roundAlpha image ht
  by_cases hstarred : ∃ i, p < i ∧ i ≤ matchEnd roundAlpha image n t ∧ tc i = star ∧
      isAsciiAlpha (image i) = false
  · -- a stretch that left this star begins at `p` or in front of it
    obtain ⟨i, hpi, hie, hstar, hni⟩ := hstarred
    obtain ⟨s, hst, f', hfs, hstretch, hfi, his⟩ := h.reach i (by omega) hstar
    have htaken : TakenFiller W (image.toList n) i :=
      (h.kinds i (by omega) hstar).resolve_left (by rw [hni]; exact Bool.false_ne_true)
    have hfp' : f' ≤ p := by
      by_contra hlt
      exact hfree ⟨s, hst, f', hfs, by omega, hstretch, i, by rwa [skipFillers_byteAt], hfi, htaken⟩
    have hps : p ≤ s := by
      by_contra hlt
      have := (skipFillers_spec image (show s < n by omega)).2.2 p (by omega) (by omega)
      rw [this, not_alpha_minus] at hkp
      exact Bool.false_ne_true hkp
    exact walk_keeps (r := roundAlpha) backward_alpha hwalk
      (h.covers s hst p ⟨hps, f', hfp', hstretch⟩ hkp fun hint => hfree (hint.mono (Nat.le_of_lt hst)))
  · refine walk_covers (r := roundAlpha) backward_alpha ht not_alpha_minus hfp hpt hkp hlen
      (fun i hpi hie hc => ?_) ?_ hwalk
    · by_contra hni
      have hni : isAsciiAlpha (image i) = false := by simpa [roundAlpha] using hni
      refine hstarred ⟨i, hpi, hie, ?_, hni⟩
      rcases hinv.stars i with heq | ⟨-, hstar⟩
      · change countsAlpha (tc i) = true at hc
        rw [heq] at hc
        simpa [countsAlpha, hni, heq] using hc
      · exact hstar
    · rcases hinv.stars p with heq | ⟨-, hstar⟩
      · right
        change starsAlpha tc p = true
        simp [starsAlpha, heq, hkp]
      · exact .inl hstar

theorem LetterStars.taken (h : LetterStars W image n t tc) (hW : [] ∉ W) (ht : t < n)
    (hinv : RoundInv roundAlpha image n ps t tc) {q : Nat}
    (hq : q ≤ matchEnd roundAlpha image n t) (hns : tc q ≠ star) (hwrite : starsAlpha tc q = true) :
    isAsciiAlpha (image q) = true ∨ TakenFiller W (image.toList n) q := by
  obtain ⟨hte, hen, hfill⟩ := matchEnd_spec roundAlpha image ht
  have hself : ∀ i, isAsciiAlpha (tc i) = true → isAsciiAlpha (image i) = true := by
    intro i hi
    rcases hinv.stars i with heq | ⟨-, hstar⟩
    · rwa [heq] at hi
    · exact absurd hstar (alpha_ne_star hi)
  unfold starsAlpha at hwrite
  rw [Bool.or_eq_true, Bool.and_eq_true, decide_eq_true_eq, Bool.or_eq_true, Bool.and_eq_true,
    Bool.and_eq_true, decide_eq_true_eq, decide_eq_true_eq] at hwrite
  rcases hwrite with ha | ⟨hm, hbefore⟩
  · exact .inl (hself q ha)
  right
  have hmq : image q = minus := by
    rcases hinv.stars q with heq | ⟨-, hstar⟩
    · rwa [heq] at hm
    · exact absurd hstar hns
  refine ⟨by rwa [byteAt_toList (by omega)], ?_⟩
  rcases hbefore with ⟨h1, ha⟩ | ⟨h2, ha⟩
  · left
    rw [byteAt_toList (by omega)]
    exact ⟨h1, hself _ ha⟩
  · right
    have hal := hself _ ha
    rw [byteAt_toList (by omega), byteAt_toList (by omega)]
    refine ⟨h2, hal, ?_⟩
    by_cases hm1 : image (q - 1) = minus
    · exact .inl hm1
    -- the letter was read before, and a word that ends there would have starred it
    right
    intro hhit
    have hqt : q - 2 < t := by
      by_contra hlt
      exact hm1 (hfill (q - 1) (by omega) (by omega)).2
    have htake : q - 1 = q - 2 + 1 := by omega
    rw [htake] at hhit
    obtain ⟨f, hf⟩ := @exists_stretch W isAsciiAlpha hW (image.toList n) (q - 2)
      (by rw [Buf.toList_length]; omega) (by rwa [byteAt_toList (by omega)]) hhit
    refine alpha_ne_star ha (h.covers (q - 2) hqt (q - 2) ⟨Nat.le_refl _, f, hf.1, hf⟩ hal ?_)
    rintro ⟨s, hs, f', hfs, hlt, -⟩
    omega

theorem LetterStars.hit (h : LetterStars W image n t tc) (hW : [] ∉ W) (ht : t < n)
    (hinv : RoundInv roundAlpha image n ps t tc) (hk : isAsciiAlpha (image t) = true)
    (hlong : LongestHit W ((ps ++ [t]).map image) w)
    (hwalk : walk countsAlpha starsAlpha (matchEnd roundAlpha image n t + 1) w.length tc = some tc') :
    LetterStars W image n (matchEnd roundAlpha image n t + 1) tc' := by
  obtain ⟨hte, hen, hfill⟩ := matchEnd_spec roundAlpha image ht
  obtain ⟨f, hf, hlen⟩ := stretch_of_longest hW ht hk (by
    rw [List.map_append, hinv.filtered not_alpha_minus, toList_succ, List.filter_append,
      List.map_cons, List.map_nil, List.filter_cons_of_pos hk, List.filter_nil]
    rfl) hlong
  have hnew : ∀ q, tc' q ≠ tc q → f ≤ q ∧ q ≤ matchEnd roundAlpha image n t ∧ starsAlpha tc q = true :=
    fun q hq => walk_in_stretch (r := roundAlpha) backward_alpha ht
      (fun i hi => by
        change countsAlpha (tc i) = true
        rcases hinv.stars i with heq | ⟨-, hstar⟩
        · have hi : isAsciiAlpha (image i) = true := hi
          simp [countsAlpha, heq, hi]
        · rw [hstar]
          decide)
      hf.1 hlen hwalk hq
  refine ⟨fun s hs p hon hkp hfree => ?_, fun q hq hstar => ?_, fun q hq hstar => ?_⟩
  · rcases Nat.lt_trichotomy s t with hlt | rfl | hgt
    · exact walk_keeps (r := roundAlpha) backward_alpha hwalk (h.covers s hlt p hon hkp hfree)
    · obtain ⟨hps, f', hfp, hf'⟩ := hon
      obtain rfl := hf.unique hf'
      exact h.own ht hinv hfp hps hkp hfree hlen hwalk
    · obtain ⟨-, f', -, hf'⟩ := hon
      have := hf'.bytes.2.2.2
      rw [(hfill s hgt (Nat.le_of_lt_succ hs)).2, not_alpha_minus] at this
      exact absurd this Bool.false_ne_true
  · by_cases hne : tc' q = tc q
    · obtain ⟨s, hs, hrest⟩ := h.reach q hq (hne ▸ hstar)
      exact ⟨s, by omega, hrest⟩
    · obtain ⟨hfq, hqe, -⟩ := hnew q hne
      exact ⟨t, by omega, f, hf.1, hf, hfq, hqe⟩
  · by_cases hne : tc' q = tc q
    · exact h.kinds q hq (hne ▸ hstar)
    · obtain ⟨-, hqe, hwrite⟩ := hnew q hne
      exact h.taken hW ht hinv hqe (fun hs => hne (hstar.trans hs.symm)) hwrite

/-- The second round stars the letters of a stretch that no other stretch interrupts. -/
theorem roundAlpha_covers {a : AcsmStruct} (h : Compiled W a) (hstarless : ∀ i, i < n → image i ≠ star)
    {flag flag' : Int} (heq : replaceRound a roundAlpha n image flag = some (tc', flag')) {p t : Nat}
    (hon : OnStretch W isAsciiAlpha (image.toList n) p t) (hk : isAsciiAlpha (image p) = true)
    (hfree : ¬ Interrupted W (image.toList n) p t) : tc' p = star := by
  obtain ⟨ps, -, hP⟩ := replaceRound_rule h (roundOk_alpha W) (fun _ t tc _ => LetterStars W image n t tc)
    (by
      intro ps t tc flag ht hinv hP hnk
      refine ⟨fun s hs p hon hkp hfree => ?_, fun q hq hstar => ?_, hP.kinds⟩
      · rcases Nat.lt_or_eq_of_le (Nat.le_of_lt_succ hs) with hlt | rfl
        · exact hP.covers s hlt p hon hkp hfree
        · obtain ⟨-, f, -, hf⟩ := hon
          exact absurd hf.bytes.2.2.2 hnk
      · obtain ⟨s, hs, hrest⟩ := hP.reach q hq hstar
        exact ⟨s, Nat.lt_succ_of_lt hs, hrest⟩)
    (by
      intro ps t tc flag ht hinv hP hkt hnohit
      refine ⟨fun s hs p hon hkp hfree => ?_, fun q hq hstar => ?_, hP.kinds⟩
      · rcases Nat.lt_or_eq_of_le (Nat.le_of_lt_succ hs) with hlt | rfl
        · exact hP.covers s hlt p hon hkp hfree
        · obtain ⟨-, f, -, hf⟩ := hon
          exact absurd (hf.hit ht hkt (hinv.filtered not_alpha_minus)) hnohit
      · obtain ⟨s, hs, hrest⟩ := hP.reach q hq hstar
        exact ⟨s, Nat.lt_succ_of_lt hs, hrest⟩)
    (fun ps t tc flag w tc' ht hinv hP hkt hlong hwalk =>
      hP.hit (fun hmem => h.words.nonempty _ hmem rfl) ht hinv hkt hlong hwalk)
    heq
    { covers := fun s hs => absurd hs (Nat.not_lt_zero s)
      reach := fun q hq hstar => absurd hstar (hstarless q hq)
      kinds := fun q hq hstar => absurd hstar (hstarless q hq) }
  obtain ⟨-, f, -, hf⟩ := id hon
  exact hP.covers t hf.bytes.2.1 p hon hk hfree

end Taomee.Dirty
