import Taomee.Dirty.Lemmas.Stars

/-!
# The first round keeps characters whole

The walk of the first round counts a filler that an earlier match has starred as a byte of the
pattern. Unless a word is matched across such fillers, every walk ends where its word begins.
-/

namespace Taomee.Dirty

open Taomee.Utf8 Taomee.Words

/-- A word occurs in the masked text `r` with fillers of full-width characters inside of it, and in
front of each of these fillers a word ends. -/
def Bridged (W : List (List UInt8)) (r : List UInt8) : Prop :=
  ∃ before seg after, r = before ++ seg ++ after ∧ minus ∈ seg ∧ seg.head? ≠ some minus ∧
    seg.getLast? ≠ some minus ∧ (seg.filter fun c => c ≠ minus) ∈ W ∧
    ∀ x y, seg = x ++ minus :: y → x.getLast? ≠ some minus → Hit W (before ++ x)

variable {W : List (List UInt8)} {image : Buf} {n : Nat}

/-- The bytes that were not read were jumped over, behind a match of a word without fillers. -/
def JumpedOver (W : List (List UInt8)) (image : Buf) (ps : List Nat) (t : Nat) : Prop :=
  ∀ p, p < t → p ∉ ps → ∃ e, e < p ∧ (∀ i, e < i → i ≤ p → image i = minus) ∧
    Hit W (image.toList (e + 1))

/-- A word matched in the first round stands in the image without gaps. -/
theorem match_contiguous (hplain : Plain W) (hno : ¬ Bridged W (image.toList n)) {ps : List Nat}
    {t : Nat} {tc : Buf} (ht : t < n) (hinv : RoundInv roundFull image n ps t tc)
    (hjump : JumpedOver W image ps t) {w : List UInt8} (hwW : w ∈ W) (hne : w ≠ [])
    (hsuf : w <:+ (ps ++ [t]).map image) : w <:+ image.toList (t + 1) := by
  have hword : ∀ c ∈ w, decide (c ≠ minus) = true := by
    intro c hc
    have := notMark_of_not_punc (hplain w hwW c hc)
    simp only [notMark, Bool.and_eq_true] at this
    exact this.2
  obtain ⟨s, hst, hread, hs, htm, hfilter⟩ := match_range (K := fun c => decide (c ≠ minus)) hinv
    (fun p hp hm => (hinv.all p hp rfl).resolve_right fun h => of_decide_eq_true hm h.2) hword hne hsuf
  simp only [decide_eq_true_eq] at hread hs htm
  have hsplit := toList_split image (s := s) (t := t + 1) (by omega)
  generalize hseg : (List.range' s (t + 1 - s)).map image = seg at hfilter hsplit
  have hlen : seg.length = t + 1 - s := by
    rw [← hseg]
    simp
  have hget : ∀ i, (hi : i < seg.length) → seg[i] = image (s + i) := by
    intro i hi
    subst hseg
    simp
  by_cases hm : minus ∈ seg
  · refine absurd ⟨image.toList s, seg, (List.range' (t + 1) (n - (t + 1))).map image, ?_, hm, ?_, ?_,
      by rw [hfilter]; exact hwW, ?_⟩ hno
    · rw [← hsplit]
      exact toList_split image ht
    · rw [List.head?_eq_getElem?, List.getElem?_eq_getElem (by omega), hget]
      simpa using hs
    · rw [List.getLast?_eq_getElem?, List.getElem?_eq_getElem (by omega), hget]
      rw [show s + (seg.length - 1) = t by omega]
      simpa using htm
    · intro x y hxy hx
      have hxlen : x.length < seg.length := by
        rw [hxy]
        simp
      have hpm : image (s + x.length) = minus := by
        rw [← hget x.length hxlen]
        simp [hxy]
      have hpt : s + x.length < t := by
        rcases Nat.lt_or_ge (s + x.length) t with h | h
        · exact h
        · have : s + x.length = t := by omega
          exact absurd (this ▸ hpm) htm
      have hpos : 0 < x.length := by
        rcases Nat.eq_zero_or_pos x.length with h | h
        · rw [h] at hpm
          exact absurd hpm hs
        · exact h
      have hlast : image (s + x.length - 1) ≠ minus := by
        intro h
        refine hx ?_
        rw [List.getLast?_eq_getElem?, List.getElem?_eq_getElem (by omega)]
        have := hget (x.length - 1) (by omega)
        rw [show s + (x.length - 1) = s + x.length - 1 by omega, h] at this
        simp only [hxy] at this
        rw [List.getElem_append_left (by omega)] at this
        rw [this]
      have hpps : s + x.length ∉ ps := fun hp =>
        (hread _ (Nat.le_add_right _ _) hpt).mp hp hpm
      obtain ⟨e, he, hfill, hhit⟩ := hjump _ hpt hpps
      obtain rfl : e = s + x.length - 1 := by
        by_contra hne
        exact hlast (hfill _ (by omega) (by omega))
      have hbefore : image.toList (s + x.length - 1 + 1) = image.toList s ++ x := by
        rw [show s + x.length - 1 + 1 = s + x.length by omega, toList_add]
        congr 1
        apply List.ext_getElem
        · simp
        · intro i h1 h2
          have := hget i (by omega)
          simp only [hxy] at this
          rw [List.getElem_append_left h2] at this
          rw [this]
          simp [Buf.toList]
      rwa [hbefore] at hhit
  · have hself : seg.filter (fun c => c ≠ minus) = seg :=
      List.filter_eq_self.mpr fun c hc => decide_eq_true fun h : c = minus => hm (h ▸ hc)
    rw [hsplit, ← hfilter, hself]
    exact List.suffix_append _ _

/-- A word that stands in the image, byte for byte. -/
theorem suffix_toList {w : List UInt8} {t : Nat} (h : w <:+ image.toList (t + 1)) :
    w.length ≤ t + 1 ∧ ∀ i, (hi : i < w.length) → image (t + 1 - w.length + i) = w[i] := by
  obtain ⟨u, hu⟩ := h
  have hlen := congrArg List.length hu
  rw [List.length_append, Buf.toList_length] at hlen
  refine ⟨by omega, fun i hi => ?_⟩
  have := Buf.getElem?_toList image (n := t + 1) (i := t + 1 - w.length + i) (by omega)
  rw [← hu, List.getElem?_append_right (by omega),
    show t + 1 - w.length + i - u.length = i by omega, List.getElem?_eq_getElem hi] at this
  exact (Option.some.inj this).symm

theorem suffix_byte {w : List UInt8} {t : Nat} (h : w <:+ image.toList (t + 1)) {i : Nat}
    (h1 : t + 1 - w.length ≤ i) (h2 : i < t + 1) : image i ∈ w := by
  obtain ⟨hle, hget⟩ := suffix_toList h
  obtain ⟨j, rfl⟩ : ∃ j, i = t + 1 - w.length + j := ⟨i - (t + 1 - w.length), by omega⟩
  rw [hget j (by omega)]
  exact List.getElem_mem _

/-- The walk at a match without gaps stars the word and the fillers behind it. -/
theorem walk_full {t e : Nat} {tc tc' : Buf} {w : List UInt8} (hplain : ∀ c ∈ w, notMark c = true)
    (hpos : 0 < w.length) (hsuf : w <:+ image.toList (t + 1)) (hte : t ≤ e)
    (hfill : ∀ i, t < i → i ≤ e → image i = minus) (htail : ∀ i, t < i → tc i = image i)
    (hstars : ∀ i, tc i = image i ∨ tc i = star)
    (hwalk : walk countsFull starsFull (e + 1) w.length tc = some tc') :
    ∀ i, tc' i = if t + 1 - w.length ≤ i ∧ i < e + 1 then star else tc i := by
  have hle := (suffix_toList hsuf).1
  have hall : ∀ i, t + 1 - w.length ≤ i → i < t + 1 → countsFull (tc i) = true := by
    intro i h1 h2
    have hm := hplain _ (suffix_byte hsuf h1 h2)
    simp only [notMark, Bool.and_eq_true, decide_eq_true_eq] at hm
    unfold countsFull
    rcases hstars i with h | h
    · simp [h, hm.2]
    · simp [h]
  have hnone : ∀ i, t + 1 ≤ i → i < e + 1 → countsFull (tc i) = false := by
    intro i h1 h2
    rw [htail i h1, hfill i h1 (by omega)]
    decide
  obtain ⟨tc'', hwalk', hstar⟩ := @walk_exact countsFull (fun _ => true) (e + 1)
    (t + 1 - w.length) w.length tc (by omega)
    (by
      rw [countIn_of_none (by omega) hnone, countIn_of_all (Nat.sub_le _ _) hall]
      omega)
    (fun _ => hall _ (Nat.le_refl _) (by omega))
  have heq : tc' = tc'' := Option.some.inj (hwalk.symm.trans hwalk')
  intro i
  rw [heq, hstar i]
  exact if_congr (by simp) rfl rfl

/-- What the first round leaves, unless a word is bridged. -/
theorem roundFull_uniform {a : AcsmStruct} (h : Compiled W a) (hplain : Plain W)
    (hword : ∀ w ∈ W, WordOk w) (him : ImageOk image n) (hstarless : ∀ i, i < n → image i ≠ star)
    (hno : ¬ Bridged W (image.toList n)) (flag : Int) :
    ∃ tc' flag', replaceRound a roundFull n image flag = some (tc', flag') ∧
      Uniform image tc' n ∧ ∀ p, p < n → tc' p = star → image p ≠ plus := by
  obtain ⟨ps, tc', flag', heq, -, -, hun, hplus⟩ := @replaceLoop_rule W a roundFull image n h
    (roundOk_full hplain)
    (fun ps t tc _ => JumpedOver W image ps t ∧ Uniform image tc n ∧
      ∀ p, p < n → tc p = star → image p ≠ plus)
    (fun ps t tc flag' ht _ _ hk => absurd rfl hk)
    (by
      rintro ps t tc flag' ht - ⟨h1, h2, h3⟩ - -
      refine ⟨fun p hp hnot => ?_, h2, h3⟩
      rw [List.mem_append, List.mem_singleton, not_or] at hnot
      exact h1 p (by omega) hnot.1)
    (by
      rintro ps t tc flag' w tc' ht hinv ⟨h1, h2, h3⟩ - hlong hwalk
      have hne := h.words.nonempty w hlong.1
      have hpos : 0 < w.length := List.length_pos_of_ne_nil hne
      have hsuf := match_contiguous hplain hno ht hinv h1 hlong.1 hne hlong.2.1
      have hmark : ∀ c ∈ w, notMark c = true := fun c hc =>
        notMark_of_not_punc (hplain w hlong.1 c hc)
      have hmark' : ∀ c ∈ w, c ≠ plus ∧ c ≠ minus := by
        intro c hc
        simpa [notMark] using hmark c hc
      obtain ⟨hte, hen, hfill⟩ := matchEnd_spec roundFull image ht
      have hstars := walk_full hmark hpos hsuf hte (fun i h1 h2 => (hfill i h1 h2).2)
        (fun i hi => hinv.tail i (Nat.le_of_lt hi)) (fun i => (hinv.stars i).imp_right And.right) hwalk
      have hle := (suffix_toList hsuf).1
      refine ⟨fun p hp hnot => ?_, ?_, fun p hp hstar => ?_⟩
      · rw [List.mem_append, List.mem_singleton, not_or] at hnot
        rcases Nat.lt_trichotomy p t with hlt | heq | hgt
        · exact h1 p hlt hnot.1
        · exact absurd heq hnot.2
        · exact ⟨t, hgt, fun i hi1 hi2 => (hfill i hi1 (by omega)).2, w, hlong.1, hsuf⟩
      · refine @Uniform.extend image tc tc' n h2 (fun _ => True) (t + 1 - w.length)
          (matchEnd roundFull image n t + 1) (fun _ _ _ => Iff.rfl) ?_ ?_ fun i => ?_
        · obtain ⟨b, s, rfl, hb⟩ := (hword w hlong.1).head
          have := (suffix_toList hsuf).2 0 (by simp)
          rw [Nat.add_zero] at this
          rw [this]
          exact hb
        · exact him.after_fillers ht ((hword w hlong.1).endsAt hsuf)
            (hmark' _ (suffix_byte hsuf (by omega) (Nat.lt_succ_self _))).2
        · rw [hstars i]
          by_cases hr : t + 1 - w.length ≤ i ∧ i < matchEnd roundFull image n t + 1
          · simp [hr]
          · rw [if_neg hr]
            exact ⟨.inl, fun hor => hor.elim id fun hx => absurd ⟨hx.1, hx.2.1⟩ hr⟩
      · rw [hstars p] at hstar
        split at hstar
        · rename_i hr
          rcases Nat.lt_or_ge t p with hlt | hge
          · rw [(hfill p hlt (by omega)).2]
            decide
          · exact (hmark' _ (suffix_byte hsuf hr.1 (by omega))).1
        · exact h3 p hp hstar)
    n _ _ _ _ (Nat.le_add_left _ _) (RoundInv.init roundFull image n)
    ⟨fun p hp => absurd hp (Nat.not_lt_zero _),
      fun p hp hin => iff_of_false (hstarless _ hp) (hstarless _ (by omega)),
      fun p hp hstar => absurd hstar (hstarless p hp)⟩
  exact ⟨tc', flag', heq, hun, hplus⟩

end Taomee.Dirty
