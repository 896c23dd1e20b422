import Taomee.Dirty.Lemmas.Load
import Taomee.Lib.Utf8

/-!
# The lines of a dictionary file

The loop of `tm_dirty_load_new` against the file split into lines. Behind the last line there may be no
newline, and then its last byte is taken for one unless a tab ends the word before it.
-/

namespace Taomee.Dirty

open Taomee.Utf8

/-! ## The calls of acsmAddPattern -/

/-- `loadLines`, with the calls of `acsmAddPattern` that it makes: the line and `dirty_len`. -/
def loadLog : Nat → List UInt8 → AcsmStruct → Option (AcsmStruct × List (List UInt8 × Int))
  | 0, _, _ => none
  | fuel + 1, file, acsm =>
      match fileStep file with
      | .stop => some (acsm, [])
      | .skip rest => loadLog fuel rest acsm
      | .line dirtyWord rest =>
          if dirtyLen dirtyWord = 0 then loadLog fuel rest acsm
          else
            let (acsm, ret) := acsmAddPattern acsm dirtyWord (dirtyLen dirtyWord)
            if ret = -1 then some (acsm, [(dirtyWord, dirtyLen dirtyWord)])
            else (loadLog fuel rest acsm).map fun r => (r.1, (dirtyWord, dirtyLen dirtyWord) :: r.2)

/-- The text that a call hands over; none when its length is negative. -/
def callText (call : List UInt8 × Int) : Option (List UInt8) :=
  if call.2 < 0 then none else some (call.1.take call.2.toNat)

theorem loadLog_fst (fuel : Nat) : ∀ file a, (loadLog fuel file a).map Prod.fst = loadLines fuel file a := by
  induction fuel with
  | zero => exact fun _ _ => rfl
  | succ fuel ih =>
      intro file a
      unfold loadLog loadLines
      cases fileStep file with
      | stop => rfl
      | skip rest => exact ih rest a
      | line dirtyWord rest =>
          dsimp only
          split
          · exact ih rest a
          · split
            · rfl
            · rw [Option.map_map, ← ih]
              rfl

/-! ## The lines -/

/-- The word of a line: what stands from its first byte that is no blank up to a tab, unless there is
no such byte or it is a `#`. -/
def lineText (line : List UInt8) : Option (List UInt8) :=
  match line.dropWhile isBlank with
  | [] => none
  | c :: rest => if c = hash then none else some ((c :: rest).takeWhile fun c => c ≠ tab)

/-- The words of a file, in its order. -/
def fileTexts (file : List UInt8) : List (List UInt8) := (file.splitOn newline).filterMap lineText

/-- A word on the last line is ended by a tab or a newline, and no word is too long for an `int`. -/
structure LinesOk (file : List UInt8) : Prop where
  last : ∀ line t, (file.splitOn newline).getLast? = some line → lineText line = some t →
    tab ∈ line.dropWhile isBlank
  short : ∀ t ∈ fileTexts file, t.length < 2 ^ 31

variable {line rest file dirtyWord t : List UInt8}

theorem splitOn_line (h : newline ∉ line) (rest : List UInt8) :
    (line ++ newline :: rest).splitOn newline = line :: rest.splitOn newline := by
  rw [List.splitOn_eq_splitOnP, List.splitOn_eq_splitOnP]
  refine List.splitOnP_append_cons_of_forall_mem (fun c hc => ?_) newline (by decide) rest
  exact beq_eq_false_iff_ne.mpr fun heq => h (heq ▸ hc)

theorem splitOn_last (h : newline ∉ line) : line.splitOn newline = [line] := by
  rw [List.splitOn_eq_splitOnP]
  exact List.splitOnP_eq_singleton fun c hc => beq_eq_false_iff_ne.mpr fun heq => h (heq ▸ hc)

theorem fileTexts_line (h : newline ∉ line) (rest : List UInt8) :
    fileTexts (line ++ newline :: rest) = (lineText line).toList ++ fileTexts rest := by
  unfold fileTexts
  rw [splitOn_line h, List.filterMap_cons]
  cases lineText line <;> rfl

theorem fileTexts_last (h : newline ∉ line) : fileTexts line = (lineText line).toList := by
  unfold fileTexts
  rw [splitOn_last h, List.filterMap_cons]
  cases lineText line <;> rfl

theorem linesOk_line (h : newline ∉ line) (rest : List UInt8) : LinesOk (line ++ newline :: rest) ↔
    (∀ t, lineText line = some t → t.length < 2 ^ 31) ∧ LinesOk rest := by
  have hlast : ((line ++ newline :: rest).splitOn newline).getLast? = (rest.splitOn newline).getLast? := by
    rw [splitOn_line h]
    exact List.getLast?_cons_of_ne_nil (List.splitOn_ne_nil _ _)
  constructor
  · rintro ⟨h1, h2⟩
    rw [fileTexts_line h] at h2
    rw [hlast] at h1
    exact ⟨fun t ht => h2 t (by rw [ht]; simp), h1, fun t ht => h2 t (List.mem_append_right _ ht)⟩
  · rintro ⟨h1, h2, h3⟩
    refine ⟨by rw [hlast]; exact h2, fun t ht => ?_⟩
    rw [fileTexts_line h] at ht
    rcases List.mem_append.mp ht with ht | ht
    · exact h1 t (Option.mem_toList.mp ht)
    · exact h3 t ht

theorem linesOk_last (h : newline ∉ line) : LinesOk line ↔
    ∀ t, lineText line = some t → tab ∈ line.dropWhile isBlank ∧ t.length < 2 ^ 31 := by
  constructor
  · rintro ⟨h1, h2⟩ t ht
    rw [fileTexts_last h, ht] at h2
    rw [splitOn_last h] at h1
    exact ⟨h1 line t rfl ht, h2 t (by simp)⟩
  · intro hall
    constructor
    · intro l t hl ht
      rw [splitOn_last h] at hl
      obtain rfl : line = l := Option.some.inj hl
      exact (hall t ht).1
    · intro t ht
      rw [fileTexts_last h] at ht
      exact (hall t (Option.mem_toList.mp ht)).2

theorem linesOk_nil : LinesOk [] := (linesOk_last List.not_mem_nil).mpr fun _ h => nomatch h

/-- Every file is one line, or a line with a newline behind it and more. -/
theorem first_line (file : List UInt8) : newline ∉ file ∨
    ∃ line rest, file = line ++ newline :: rest ∧ newline ∉ line := by
  by_cases h : newline ∈ file
  · obtain ⟨line, rest, rfl, hno⟩ := List.eq_append_cons_of_mem h
    exact .inr ⟨line, rest, rfl, hno⟩
  · exact .inl h

theorem scan_line (h : newline ∉ line) (rest : List UInt8) :
    (line ++ newline :: rest).takeWhile (fun c => c ≠ newline) = line ∧
      (line ++ newline :: rest).dropWhile (fun c => c ≠ newline) = newline :: rest := by
  have hall : ∀ c ∈ line, decide (c ≠ newline) = true := fun c hc => by
    simpa using fun heq : c = newline => h (heq ▸ hc)
  rw [List.takeWhile_append_of_pos hall, List.dropWhile_append_of_pos hall]
  exact ⟨by simp, by simp⟩

theorem scan_last (h : newline ∉ line) : line.takeWhile (fun c => c ≠ newline) = line ∧
    line.dropWhile (fun c => c ≠ newline) = [] := by
  have hall : ∀ c ∈ line, decide (c ≠ newline) = true := fun c hc => by
    simpa using fun heq : c = newline => h (heq ▸ hc)
  exact ⟨List.takeWhile_eq_self_iff.mpr hall, List.dropWhile_eq_nil_iff.mpr hall⟩

/-! ## Blanks -/

theorem blank_ne_newline {b : UInt8} (h : isBlank b = true) : b ≠ newline := by
  rintro rfl
  exact absurd h (by decide)

theorem lineText_blank {b : UInt8} (h : isBlank b = true) (line : List UInt8) :
    (b :: line).dropWhile isBlank = line.dropWhile isBlank ∧ lineText (b :: line) = lineText line := by
  have hdrop : (b :: line).dropWhile isBlank = line.dropWhile isBlank := List.dropWhile_cons_of_pos h
  refine ⟨hdrop, ?_⟩
  unfold lineText
  rw [hdrop]

theorem file_blank {b : UInt8} (h : isBlank b = true) (file : List UInt8) :
    fileTexts (b :: file) = fileTexts file ∧ (LinesOk (b :: file) ↔ LinesOk file) := by
  rcases first_line file with hno | ⟨line, rest, rfl, hno⟩
  · have hno' : newline ∉ b :: file := by
      simpa using ⟨(blank_ne_newline h).symm, hno⟩
    obtain ⟨h1, h2⟩ := lineText_blank h file
    rw [fileTexts_last hno', fileTexts_last hno, linesOk_last hno', linesOk_last hno, h1, h2]
    exact ⟨rfl, Iff.rfl⟩
  · have hno' : newline ∉ b :: line := by
      simpa using ⟨(blank_ne_newline h).symm, hno⟩
    obtain ⟨-, h2⟩ := lineText_blank h line
    rw [← List.cons_append, fileTexts_line hno', fileTexts_line hno, linesOk_line hno', linesOk_line hno, h2]
    exact ⟨rfl, Iff.rfl⟩

theorem file_dropWhile_blank (file : List UInt8) : fileTexts (file.dropWhile isBlank) = fileTexts file ∧
    (LinesOk (file.dropWhile isBlank) ↔ LinesOk file) := by
  induction file with
  | nil => exact ⟨rfl, Iff.rfl⟩
  | cons b file ih =>
      cases hb : isBlank b with
      | false =>
          rw [List.dropWhile_cons_of_neg (by simp [hb])]
          exact ⟨rfl, Iff.rfl⟩
      | true =>
          obtain ⟨h1, h2⟩ := file_blank hb file
          rw [List.dropWhile_cons_of_pos hb, h1, h2]
          exact ih

/-! ## Words -/

theorem toI32_lt (z : Int) : toI32 z < 2 ^ 31 := by
  unfold toI32
  rw [Int.bmod_def]
  split <;> omega

/-- A call with the length of the word hands over the word, if an `int` holds this length. -/
theorem callText_iff (h : t <+: dirtyWord) : callText (dirtyWord, toI32 t.length) = some t ↔ t.length < 2 ^ 31 := by
  unfold callText
  constructor
  · intro hcall
    split at hcall
    · cases hcall
    · rename_i hneg
      dsimp only at hneg
      rw [Option.some.injEq] at hcall
      have hlen := congrArg List.length hcall
      rw [List.length_take] at hlen
      have hle := h.length_le
      have hmax := toI32_lt t.length
      dsimp only at hlen
      omega
  · intro hlt
    have h32 : toI32 t.length = t.length := by
      apply toI32_of_lt
      · omega
      · omega
    rw [h32, if_neg (Int.not_lt.mpr (Int.natCast_nonneg _)), Int.toNat_natCast]
    exact congrArg some (List.prefix_iff_eq_take.mp h).symm

/-- A call that leaves out the last byte does not hand over the word. -/
theorem callText_short (hne : line ≠ []) : callText (line, toI32 ((line.length : Int) - 1)) ≠ some line := by
  intro hcall
  unfold callText at hcall
  split at hcall
  · cases hcall
  · rename_i hneg
    dsimp only at hneg
    have hpos := List.length_pos_of_ne_nil hne
    rw [Option.some.injEq] at hcall
    have hlen := congrArg List.length hcall
    rw [List.length_take] at hlen
    have hle : toI32 ((line.length : Int) - 1) ≤ line.length - 1 := by
      rw [show (line.length : Int) - 1 = ((line.length - 1 : Nat) : Int) by omega] at hneg ⊢
      exact toI32_natCast_le (Int.not_lt.mp hneg)
    dsimp only at hlen
    omega

/-- The length of the word of a line with a newline behind it. -/
theorem dirtyLen_line (h0 : 0 ∉ line) :
    dirtyLen (line ++ [newline]) = toI32 (line.takeWhile fun c => c ≠ tab).length := by
  have h0' : (0 : UInt8) ∉ line ++ [newline] := by
    simpa using ⟨h0, show (0 : UInt8) ≠ newline by decide⟩
  unfold dirtyLen
  rw [takeWhile_ne_zero h0']
  dsimp only
  by_cases htab : tab ∈ line
  · rw [if_pos (List.mem_append_left _ htab), List.takeWhile_append]
    have hshort : (line.takeWhile fun c => decide (c ≠ tab)).length ≠ line.length := by
      intro heq
      have hself := (List.takeWhile_prefix _).eq_of_length heq
      simpa using List.takeWhile_eq_self_iff.mp hself tab htab
    rw [if_neg hshort]
  · rw [if_neg (by simpa using ⟨htab, show tab ≠ newline by decide⟩)]
    have hself : line.takeWhile (fun c => c ≠ tab) = line :=
      List.takeWhile_eq_self_iff.mpr fun c hc => by simpa using fun heq : c = tab => htab (heq ▸ hc)
    rw [hself, List.length_append, List.length_singleton]
    congr 1
    omega

/-- The length of the word of a line at the end of the file. -/
theorem dirtyLen_last (h0 : 0 ∉ line) : dirtyLen line =
    if tab ∈ line then toI32 (line.takeWhile fun c => c ≠ tab).length else toI32 ((line.length : Int) - 1) := by
  unfold dirtyLen
  rw [takeWhile_ne_zero h0]

/-! ## One turn -/

/-- What a turn of the loop does to a file. -/
inductive LineStep : List UInt8 → FileStep → Prop
  | stop : LineStep [] .stop
  | skip {file rest : List UInt8} : fileTexts rest = fileTexts file → (LinesOk rest ↔ LinesOk file) → rest ⊆ file →
      LineStep file (.skip rest)
  | stuck {file : List UInt8} {b : UInt8} : isBlank b = true → LineStep file (.skip [b])
  | word {file dirtyWord rest t : List UInt8} : t ≠ [] → fileTexts file = t :: fileTexts rest →
      (LinesOk file ↔ callText (dirtyWord, dirtyLen dirtyWord) = some t ∧ LinesOk rest) → rest ⊆ file →
      LineStep file (.line dirtyWord rest)

theorem lineStep_word {c : UInt8} {file : List UInt8} (hblank : isBlank c = false) (hhash : c ≠ hash)
    (hnl : c ≠ newline) (h0 : 0 ∉ c :: file) :
    LineStep (c :: file) (.line (((c :: file).takeWhile fun c => c ≠ newline) ++
      (((c :: file).dropWhile fun c => c ≠ newline).take 1))
      (((c :: file).dropWhile fun c => c ≠ newline).drop 1)) := by
  -- the line begins with `c`
  have hline : ∀ {line : List UInt8}, lineText (c :: line) = some ((c :: line).takeWhile fun c => c ≠ tab) ∧
      (c :: line).dropWhile isBlank = c :: line := by
    intro line
    have hdrop : (c :: line).dropWhile isBlank = c :: line := List.dropWhile_cons_of_neg (by simp [hblank])
    refine ⟨?_, hdrop⟩
    unfold lineText
    rw [hdrop]
    exact if_neg hhash
  have hne : ∀ {line : List UInt8}, ((c :: line).takeWhile fun c => c ≠ tab) ≠ [] := by
    intro line h
    have htab : c ≠ tab := by
      rintro rfl
      exact absurd hblank (by decide)
    rw [List.takeWhile_cons_of_pos (by simpa using htab)] at h
    cases h
  rcases first_line (c :: file) with hno | ⟨line, rest, heq, hno⟩
  · obtain ⟨h1, h2⟩ := scan_last hno
    rw [h1, h2]
    obtain ⟨htext, hdrop⟩ := @hline file
    refine .word (@hne file) ?_ ?_ (List.nil_subset _)
    · rw [fileTexts_last hno, htext]
      rfl
    · rw [linesOk_last hno, htext, List.take_nil, List.append_nil, dirtyLen_last h0, hdrop]
      by_cases htab : tab ∈ c :: file
      · rw [if_pos htab, callText_iff (List.takeWhile_prefix _)]
        constructor
        · exact fun h => ⟨(h _ rfl).2, linesOk_nil⟩
        · rintro ⟨h, -⟩ t ht
          rw [← Option.some.inj ht]
          exact ⟨htab, h⟩
      · rw [if_neg htab]
        have hself : (c :: file).takeWhile (fun c => c ≠ tab) = c :: file :=
          List.takeWhile_eq_self_iff.mpr fun b hb => by simpa using fun heq : b = tab => htab (heq ▸ hb)
        rw [hself]
        constructor
        · exact fun h => absurd (h _ rfl).1 htab
        · exact fun h => absurd h.1 (callText_short (List.cons_ne_nil c file))
  · obtain ⟨h1, h2⟩ := scan_line hno rest
    cases line with
    | nil => exact absurd (List.cons.inj heq).1 hnl
    | cons b line =>
        obtain ⟨rfl, hfile⟩ := List.cons.inj heq
        have hfile : file = line ++ newline :: rest := hfile
        subst hfile
        rw [List.cons_append] at h1 h2
        rw [h1, h2]
        obtain ⟨htext, -⟩ := @hline line
        have h0' : (0 : UInt8) ∉ c :: line := fun h => h0 (List.mem_append_left (newline :: rest) h)
        refine .word (@hne line) ?_ ?_ fun b hb => List.mem_cons_of_mem _ (by simpa using .inr (.inr hb))
        · rw [← List.cons_append, fileTexts_line hno, htext]
          rfl
        · rw [← List.cons_append, linesOk_line hno, htext]
          show _ ↔ callText (c :: line ++ [newline], dirtyLen (c :: line ++ [newline])) = _ ∧ LinesOk rest
          rw [dirtyLen_line h0', callText_iff ((List.takeWhile_prefix _).trans (List.prefix_append _ _))]
          refine and_congr_left fun _ => ?_
          exact ⟨fun h => h _ rfl, fun h t ht => by rw [← Option.some.inj ht]; exact h⟩

theorem fileStep_spec (hff : 0xFF ∉ file) (h0 : 0 ∉ file) : LineStep file (fileStep file) := by
  cases file with
  | nil => exact .stop
  | cons c file =>
      unfold fileStep
      dsimp only
      rw [if_neg fun h : c = 0xFF => hff (by rw [h]; exact List.mem_cons_self)]
      by_cases hhash : c = hash
      · -- a comment has no word
        subst hhash
        rw [if_pos rfl]
        have hnone : ∀ line, lineText (hash :: line) = none := fun _ => rfl
        rcases first_line file with hno | ⟨line, rest, rfl, hno⟩
        · have hno' : newline ∉ hash :: file := by
            simpa using ⟨show newline ≠ hash by decide, hno⟩
          rw [(scan_last hno).2, List.drop_nil]
          refine .skip ?_ ?_ (List.nil_subset _)
          · rw [fileTexts_last hno', hnone]
            rfl
          · refine iff_of_true linesOk_nil ((linesOk_last hno').mpr fun t ht => ?_)
            rw [hnone] at ht
            cases ht
        · have hno' : newline ∉ hash :: line := by
            simpa using ⟨show newline ≠ hash by decide, hno⟩
          rw [(scan_line hno rest).2, List.drop_one, List.tail_cons]
          refine .skip ?_ ?_ fun b hb => List.mem_cons_of_mem _ (by simpa using .inr (.inr hb))
          · rw [← List.cons_append, fileTexts_line hno', hnone]
            rfl
          · rw [← List.cons_append, linesOk_line hno', hnone]
            exact ⟨fun h => ⟨fun _ ht => (nomatch ht), h⟩, And.right⟩
      rw [if_neg hhash]
      cases hblank : isBlank c with
      | true =>
          rw [if_pos rfl]
          obtain ⟨h1, h2⟩ := file_blank hblank file
          obtain ⟨h3, h4⟩ := file_dropWhile_blank file
          cases hdrop : file.dropWhile isBlank with
          | nil =>
              -- the run of blanks ends the file: its last byte is read again and again
              have hall : ∀ b ∈ c :: file, isBlank b = true := by
                intro b hb
                rcases List.mem_cons.mp hb with rfl | hb
                · exact hblank
                · exact List.dropWhile_eq_nil_iff.mp hdrop b hb
              exact .stuck (hall _ (List.getLast_mem _))
          | cons c' rest' =>
              rw [hdrop] at h3 h4
              refine .skip (h3.trans h1.symm) (h4.trans h2.symm) ?_
              rw [← hdrop]
              exact fun b hb => List.mem_cons_of_mem _ ((List.dropWhile_suffix _).subset hb)
      | false =>
          rw [if_neg Bool.false_ne_true]
          by_cases hnl : c = newline
          · subst hnl
            rw [if_pos rfl]
            have hfile : newline :: file = [] ++ newline :: file := rfl
            refine .skip ?_ ?_ fun b hb => List.mem_cons_of_mem _ hb
            · rw [hfile, fileTexts_line List.not_mem_nil]
              rfl
            · rw [hfile, linesOk_line List.not_mem_nil]
              exact ⟨fun h => ⟨fun _ ht => (nomatch ht), h⟩, And.right⟩
          · rw [if_neg hnl]
            exact lineStep_word hblank hhash hnl h0

/-! ## The whole file -/

/-- A call takes at most one slot, and fails only when there is none. -/
theorem acsmAddPattern_total (a : AcsmStruct) (pat : List UInt8) (n : Int) :
    (acsmAddPattern a pat n).1.totalPattern ≤ a.totalPattern + 1 ∧
      ((acsmAddPattern a pat n).2 = -1 → a.totalPattern ≥ maxPatterns) := by
  unfold acsmAddPattern
  split
  · rename_i hfull
    exact ⟨by dsimp only; omega, fun _ => hfull⟩
  · rename_i hroom
    dsimp only
    generalize (if n > maxKeywordLen - 1 then maxKeywordLen - 1 else n) = len
    rcases stringFilter pat len 0 with ⟨d, k⟩
    dsimp only
    split
    · exact ⟨by dsimp only [AcsmStruct.setPattern]; omega, fun h : (0 : Int) = -1 => absurd h (by decide)⟩
    · refine ⟨?_, fun h : (0 : Int) = -1 => absurd h (by decide)⟩
      dsimp only [AcsmStruct.setPattern]
      exact Int.le_of_eq (memsetPatrn_totalPattern _ _ _)

/-- A run of blanks that ends a file is read for ever. -/
theorem loadLog_stuck {b : UInt8} (h : isBlank b = true) (fuel : Nat) : ∀ a, loadLog fuel [b] a = none := by
  have hstep : fileStep [b] = .skip [b] := by
    unfold isBlank at h
    simp only [Bool.or_eq_true, decide_eq_true_eq] at h
    rcases h with rfl | rfl
    · rfl
    · rfl
  induction fuel with
  | zero => exact fun _ => rfl
  | succ fuel ih =>
      intro a
      unfold loadLog
      rw [hstep]
      exact ih a

/-- The calls are those of the lines exactly when the lines are fine; there are never more of them. The
induction is on the turns of the loop. -/
theorem loadLog_spec (fuel : Nat) : ∀ {file : List UInt8} {a a' : AcsmStruct} {log : List (List UInt8 × Int)},
    0xFF ∉ file → 0 ∉ file → a.totalPattern + (fileTexts file).length ≤ maxPatterns →
    loadLog fuel file a = some (a', log) →
    log.length ≤ (fileTexts file).length ∧
      (log.map callText = (fileTexts file).map some ↔ LinesOk file) := by
  induction fuel with
  | zero =>
      intro file a a' log _ _ _ h
      cases h
  | succ fuel ih =>
      intro file a a' log hff h0 hroom h
      have hspec := fileStep_spec hff h0
      unfold loadLog at h
      generalize fileStep file = step at h hspec
      cases hspec with
      | stop =>
          obtain ⟨-, rfl⟩ := Prod.mk.inj (Option.some.inj h)
          exact ⟨Nat.zero_le _, iff_of_true rfl linesOk_nil⟩
      | @skip _ rest htexts hok hsub =>
          rw [← htexts] at hroom ⊢
          rw [← hok]
          exact ih (fun hm => hff (hsub hm)) (fun hm => h0 (hsub hm)) hroom h
      | stuck hblank =>
          dsimp only at h
          rw [loadLog_stuck hblank] at h
          cases h
      | @word _ dirtyWord rest t hne htexts hok hsub =>
          have hff' : 0xFF ∉ rest := fun hm => hff (hsub hm)
          have h0' : (0 : UInt8) ∉ rest := fun hm => h0 (hsub hm)
          rw [htexts, List.length_cons] at hroom
          rw [htexts, List.length_cons, hok]
          dsimp only at h
          by_cases hzero : dirtyLen dirtyWord = 0
          · -- no call for this line
            rw [if_pos hzero] at h
            obtain ⟨hle, -⟩ := ih hff' h0' (by omega) h
            refine ⟨Nat.le_succ_of_le hle, iff_of_false (fun heq => ?_) fun hgood => ?_⟩
            · have := congrArg List.length heq
              rw [List.length_map, List.length_map, List.length_cons] at this
              omega
            · rw [hzero] at hgood
              exact hne (Option.some.inj hgood.1).symm
          · rw [if_neg hzero] at h
            obtain ⟨htotal, hret⟩ := acsmAddPattern_total a dirtyWord (dirtyLen dirtyWord)
            rw [if_neg fun h => by have := hret h; omega] at h
            obtain ⟨⟨b, log'⟩, hlog, hcons⟩ := Option.map_eq_some_iff.mp h
            obtain ⟨-, rfl⟩ := Prod.mk.inj hcons
            obtain ⟨hle, hiff⟩ := ih hff' h0' (by omega) hlog
            refine ⟨Nat.succ_le_succ hle, ?_⟩
            rw [List.map_cons, List.map_cons, List.cons.injEq, hiff]

/-- The handle that a load of `hs` fills. -/
def loadTarget (hs : Handles) : AcsmStruct :=
  { hs (flip (hs 0).flag) with acsmMaxStates := 0, acsmNumStates := 0, totalPattern := 0 }

/-- The dictionary loader calls `acsmAddPattern` with the words of the file, one call for each and in
their order, exactly when a word on the last line is ended by a tab or a newline and no word is too long
for an `int`. -/
theorem tmDirtyLoadNew_calls (hs : Handles) (file : List UInt8) (hvalid : Valid file) (h0 : 0 ∉ file)
    (hwords : (fileTexts file).length ≤ 81920) (fuel : Nat) (a : AcsmStruct)
    (hends : loadLines fuel file (loadTarget hs) = some a) :
    ∃ log, loadLog fuel file (loadTarget hs) = some (a, log) ∧
      (log.map callText = (fileTexts file).map some ↔ LinesOk file) := by
  rw [← loadLog_fst] at hends
  obtain ⟨⟨a', log⟩, hlog, rfl⟩ := Option.map_eq_some_iff.mp hends
  refine ⟨log, hlog, (loadLog_spec fuel hvalid.notMem h0 ?_ hlog).2⟩
  show (0 : Int) + _ ≤ 81920
  omega

/-- The file "ab", " c<tab>d", each with a newline, and "#" without one. -/
theorem tmDirtyLoadNew_calls_ab : ∃ a log,
    loadLog 10 [0x61, 0x62, 0x0A, 0x20, 0x63, 0x09, 0x64, 0x0A, 0x23] (loadTarget newHandles) = some (a, log) ∧
      log.map callText = [some [0x61, 0x62], some [0x63]] := by
  have hsome : (loadLines 10 [0x61, 0x62, 0x0A, 0x20, 0x63, 0x09, 0x64, 0x0A, 0x23] (loadTarget newHandles)).isSome =
      true := by decide +kernel
  obtain ⟨a, ha⟩ := Option.isSome_iff_exists.mp hsome
  obtain ⟨log, hlog, hiff⟩ := tmDirtyLoadNew_calls newHandles
    [0x61, 0x62, 0x0A, 0x20, 0x63, 0x09, 0x64, 0x0A, 0x23]
    ⟨['a', 'b', '\n', ' ', 'c', '\t', 'd', '\n', '#'], by decide⟩ (by decide) (by decide) 10 a ha
  refine ⟨a, log, hlog, (hiff.mpr ⟨fun line t hl ht => ?_, by decide⟩).trans (by decide)⟩
  obtain rfl : [0x23] = line := Option.some.inj ((by decide : _ = some [(0x23 : UInt8)]).symm.trans hl)
  exact nomatch (show lineText [0x23] = none from rfl).symm.trans ht

/-- The loader does not always call with the words of the file: in the file "ab" without a newline it
takes the last byte for one. -/
theorem not_tmDirtyLoadNew_calls :
    ¬ ∀ (hs : Handles) (file : List UInt8), Valid file → 0 ∉ file → (fileTexts file).length ≤ 81920 →
      ∀ fuel a, loadLines fuel file (loadTarget hs) = some a →
      ∃ log, loadLog fuel file (loadTarget hs) = some (a, log) ∧
        log.map callText = (fileTexts file).map some := by
  intro h
  have hvalid : Valid [0x61, 0x62] := ⟨['a', 'b'], by decide⟩
  have hsome : (loadLines 10 [0x61, 0x62] (loadTarget newHandles)).isSome = true := by decide +kernel
  obtain ⟨a, ha⟩ := Option.isSome_iff_exists.mp hsome
  obtain ⟨log, hlog, hcalls⟩ := h newHandles [0x61, 0x62] hvalid (by decide) (by decide) 10 a ha
  have hok := (loadLog_spec 10 (by decide) (by decide) (by decide) hlog).2.mp hcalls
  exact absurd (hok.last [0x61, 0x62] [0x61, 0x62] (by decide) (by decide)) (by decide)

end Taomee.Dirty
