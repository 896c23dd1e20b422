import Taomee.Dirty.FileLines

/-!
# When the loop over a dictionary file ends

A run of blanks at the end of the file is left by one byte and read again, so that the loop goes on for
ever, unless it has stopped at an earlier line.
-/

namespace Taomee.Dirty

/-! ## Lines of a file -/

/-- The first byte of a line that is no blank. -/
def lineHead (line : List UInt8) : Option UInt8 := (line.dropWhile isBlank).head?

/-- The call of `acsmAddPattern` for a line with a newline behind it: the line and `dirty_len`. -/
def lineCall (line : List UInt8) : Option (List UInt8 × Int) :=
  let dirtyWord := line.dropWhile isBlank ++ [newline]
  if lineHead line = none ∨ lineHead line = some hash ∨ dirtyLen dirtyWord = 0 then none
  else some (dirtyWord, dirtyLen dirtyWord)

/-- The calls for the lines of a file that have a newline behind them. -/
def fileCalls (file : List UInt8) : List (List UInt8 × Int) := (file.splitOn newline).dropLast.filterMap lineCall

/-- `acsmAddPattern` keeps the slot that it takes: something is left of the text. -/
def keepsSlot (call : List UInt8 × Int) : Bool :=
  (stringFilter call.1 (if call.2 > maxKeywordLen - 1 then maxKeywordLen - 1 else call.2) 0).2 ≠ 0

/-- What stands behind the last newline is a run of blanks. -/
def BlanksAtEnd (file : List UInt8) : Prop :=
  ∃ line, (file.splitOn newline).getLast? = some line ∧ line ≠ [] ∧ lineHead line = none

/-- Some line begins with byte 255, blanks aside. -/
def LooksLikeEof (file : List UInt8) : Prop := ∃ line ∈ file.splitOn newline, lineHead line = some 0xFF

/-- One of the calls finds no slot, with `total` of them taken before. -/
def FillsTable (total : Int) (calls : List (List UInt8 × Int)) : Prop :=
  ∃ before call behind, calls = before ++ call :: behind ∧ total + (before.countP keepsSlot : Nat) ≥ maxPatterns

variable {line rest file dirtyWord : List UInt8} {a : AcsmStruct}

theorem blanksAtEnd_line (h : newline ∉ line) (rest : List UInt8) :
    BlanksAtEnd (line ++ newline :: rest) ↔ BlanksAtEnd rest := by
  unfold BlanksAtEnd
  rw [splitOn_line h, List.getLast?_cons_of_ne_nil (List.splitOn_ne_nil _ _)]

theorem looksLikeEof_line (h : newline ∉ line) (rest : List UInt8) :
    LooksLikeEof (line ++ newline :: rest) ↔ lineHead line = some 0xFF ∨ LooksLikeEof rest := by
  unfold LooksLikeEof
  rw [splitOn_line h, List.exists_mem_cons_iff]

theorem fileCalls_line (h : newline ∉ line) (rest : List UInt8) :
    fileCalls (line ++ newline :: rest) = (lineCall line).toList ++ fileCalls rest := by
  unfold fileCalls
  rw [splitOn_line h, List.dropLast_cons_of_ne_nil (List.splitOn_ne_nil _ _), List.filterMap_cons]
  cases lineCall line <;> rfl

theorem blanksAtEnd_last (h : newline ∉ line) : BlanksAtEnd line ↔ line ≠ [] ∧ lineHead line = none := by
  unfold BlanksAtEnd
  rw [splitOn_last h]
  constructor
  · rintro ⟨l, hl, hrest⟩
    obtain rfl : line = l := Option.some.inj hl
    exact hrest
  · exact fun hrest => ⟨line, rfl, hrest⟩

theorem looksLikeEof_last (h : newline ∉ line) : LooksLikeEof line ↔ lineHead line = some 0xFF := by
  unfold LooksLikeEof
  rw [splitOn_last h]
  simp

theorem fileCalls_last (h : newline ∉ line) : fileCalls line = [] := by
  unfold fileCalls
  rw [splitOn_last h]
  rfl

theorem not_fillsTable_nil (total : Int) : ¬ FillsTable total [] := by
  rintro ⟨before, call, behind, h, -⟩
  exact absurd h.symm (by simp)

theorem fillsTable_cons (total : Int) (call : List UInt8 × Int) (calls : List (List UInt8 × Int)) :
    FillsTable total (call :: calls) ↔
      total ≥ maxPatterns ∨ FillsTable (total + if keepsSlot call then 1 else 0) calls := by
  constructor
  · rintro ⟨before, c, behind, h, hfull⟩
    cases before with
    | nil =>
        left
        simpa using hfull
    | cons b before =>
        obtain ⟨rfl, rfl⟩ := List.cons.inj h
        right
        refine ⟨before, c, behind, rfl, ?_⟩
        rw [List.countP_cons] at hfull
        split at hfull <;> rename_i hkeeps
        · rw [if_pos hkeeps]
          omega
        · rw [if_neg hkeeps]
          omega
  · rintro (hfull | ⟨before, c, behind, rfl, hfull⟩)
    · exact ⟨[], call, calls, rfl, by simpa using hfull⟩
    · refine ⟨call :: before, c, behind, rfl, ?_⟩
      rw [List.countP_cons]
      split at hfull <;> rename_i hkeeps
      · rw [if_pos hkeeps]
        omega
      · rw [if_neg hkeeps]
        omega

/-! ## Turns of the loop -/

/-- The loop comes to its end. -/
def LoadEnds (file : List UInt8) (acsm : AcsmStruct) : Prop := ∃ fuel acsm', loadLines fuel file acsm = some acsm'

theorem loadEnds_stop (h : fileStep file = .stop) (a : AcsmStruct) : LoadEnds file a := by
  refine ⟨1, a, ?_⟩
  unfold loadLines
  rw [h]

theorem loadEnds_skip (h : fileStep file = .skip rest) (a : AcsmStruct) : LoadEnds file a ↔ LoadEnds rest a := by
  constructor
  · rintro ⟨fuel, a', hrun⟩
    cases fuel with
    | zero => cases hrun
    | succ fuel =>
        unfold loadLines at hrun
        rw [h] at hrun
        exact ⟨fuel, a', hrun⟩
  · rintro ⟨fuel, a', hrun⟩
    refine ⟨fuel + 1, a', ?_⟩
    unfold loadLines
    rw [h]
    exact hrun

theorem loadEnds_noCall (h : fileStep file = .line dirtyWord rest) (hlen : dirtyLen dirtyWord = 0) (a : AcsmStruct) :
    LoadEnds file a ↔ LoadEnds rest a := by
  constructor
  · rintro ⟨fuel, a', hrun⟩
    cases fuel with
    | zero => cases hrun
    | succ fuel =>
        unfold loadLines at hrun
        rw [h] at hrun
        dsimp only at hrun
        rw [if_pos hlen] at hrun
        exact ⟨fuel, a', hrun⟩
  · rintro ⟨fuel, a', hrun⟩
    refine ⟨fuel + 1, a', ?_⟩
    unfold loadLines
    rw [h]
    dsimp only
    rw [if_pos hlen]
    exact hrun

theorem loadEnds_call (h : fileStep file = .line dirtyWord rest) (hlen : dirtyLen dirtyWord ≠ 0) (a : AcsmStruct) :
    LoadEnds file a ↔ (acsmAddPattern a dirtyWord (dirtyLen dirtyWord)).2 = -1 ∨
      LoadEnds rest (acsmAddPattern a dirtyWord (dirtyLen dirtyWord)).1 := by
  constructor
  · rintro ⟨fuel, a', hrun⟩
    cases fuel with
    | zero => cases hrun
    | succ fuel =>
        unfold loadLines at hrun
        rw [h] at hrun
        dsimp only at hrun
        rw [if_neg hlen] at hrun
        split at hrun
        · exact .inl ‹_›
        · exact .inr ⟨fuel, a', hrun⟩
  · rintro (hret | ⟨fuel, a', hrun⟩)
    · refine ⟨1, (acsmAddPattern a dirtyWord (dirtyLen dirtyWord)).1, ?_⟩
      unfold loadLines
      rw [h]
      dsimp only
      rw [if_neg hlen, if_pos hret]
    · by_cases hret : (acsmAddPattern a dirtyWord (dirtyLen dirtyWord)).2 = -1
      · refine ⟨1, (acsmAddPattern a dirtyWord (dirtyLen dirtyWord)).1, ?_⟩
        unfold loadLines
        rw [h]
        dsimp only
        rw [if_neg hlen, if_pos hret]
      · refine ⟨fuel + 1, a', ?_⟩
        unfold loadLines
        rw [h]
        dsimp only
        rw [if_neg hlen, if_neg hret]
        exact hrun

/-- A call fails only without a slot, and takes one for good when it keeps it. -/
theorem acsmAddPattern_slot (a : AcsmStruct) (call : List UInt8 × Int) :
    ((acsmAddPattern a call.1 call.2).2 = -1 ↔ a.totalPattern ≥ maxPatterns) ∧
      (¬ a.totalPattern ≥ maxPatterns → (acsmAddPattern a call.1 call.2).1.totalPattern =
        a.totalPattern + if keepsSlot call then 1 else 0) := by
  unfold acsmAddPattern keepsSlot
  split
  · rename_i hfull
    exact ⟨iff_of_true rfl hfull, fun h => absurd hfull h⟩
  · rename_i hroom
    dsimp only
    generalize (if call.2 > maxKeywordLen - 1 then maxKeywordLen - 1 else call.2) = len
    rcases stringFilter call.1 len 0 with ⟨d, k⟩
    dsimp only
    split
    · rename_i hk
      refine ⟨iff_of_false (fun h : (0 : Int) = -1 => absurd h (by decide)) hroom, fun _ => ?_⟩
      subst hk
      simp [AcsmStruct.setPattern]
    · rename_i hk
      refine ⟨iff_of_false (fun h : (0 : Int) = -1 => absurd h (by decide)) hroom, fun _ => ?_⟩
      rw [if_pos (by simpa using hk)]
      exact memsetPatrn_totalPattern _ _ _

/-! ## Lines -/

theorem lineHead_none : lineHead line = none ↔ ∀ b ∈ line, isBlank b = true := by
  unfold lineHead
  rw [List.head?_eq_none_iff, List.dropWhile_eq_nil_iff]

/-- What follows the blanks of a line. -/
theorem lineHead_some {c : UInt8} (h : lineHead line = some c) (hno : newline ∉ line) :
    ∃ line', line.dropWhile isBlank = c :: line' ∧ isBlank c = false ∧ newline ∉ c :: line' := by
  unfold lineHead at h
  obtain ⟨line', hdrop⟩ := List.head?_eq_some_iff.mp h
  refine ⟨line', hdrop, ?_, fun hmem => hno ((List.dropWhile_suffix isBlank).subset (hdrop ▸ hmem))⟩
  have hhead := List.head_dropWhile_not isBlank (l := line) (by rw [hdrop]; exact List.cons_ne_nil c line')
  simpa only [hdrop, List.head_cons, Bool.not_eq_true] using hhead

theorem isBlank_eq_true {b : UInt8} (h : isBlank b = true) : b = space ∨ b = tab := by
  unfold isBlank at h
  simpa using h

theorem fileStep_blank {b : UInt8} (h : isBlank b = true) (file : List UInt8) :
    (file.dropWhile isBlank = [] → fileStep (b :: file) = .skip [(b :: file).getLast (List.cons_ne_nil b file)]) ∧
      (file.dropWhile isBlank ≠ [] → fileStep (b :: file) = .skip (file.dropWhile isBlank)) := by
  have h1 : b ≠ 0xFF ∧ b ≠ hash := by
    rcases isBlank_eq_true h with rfl | rfl
    · exact ⟨by decide, by decide⟩
    · exact ⟨by decide, by decide⟩
  unfold fileStep
  dsimp only
  rw [if_neg h1.1, if_neg h1.2, if_pos h]
  cases file.dropWhile isBlank with
  | nil => exact ⟨fun _ => rfl, fun hne => absurd rfl hne⟩
  | cons c rest => exact ⟨fun hnil => absurd hnil (List.cons_ne_nil c rest), fun _ => rfl⟩

/-- Blanks before something else are passed over. -/
theorem loadEnds_dropWhile (h : file.dropWhile isBlank ≠ []) (a : AcsmStruct) :
    LoadEnds file a ↔ LoadEnds (file.dropWhile isBlank) a := by
  cases file with
  | nil => exact absurd rfl h
  | cons b file =>
      cases hb : isBlank b with
      | false =>
          rw [List.dropWhile_cons_of_neg (by simp [hb])]
      | true =>
          rw [List.dropWhile_cons_of_pos hb] at h ⊢
          exact loadEnds_skip ((fileStep_blank hb file).2 h) a

theorem not_loadEnds_blanks (hne : line ≠ []) (h : lineHead line = none) (a : AcsmStruct) : ¬ LoadEnds line a := by
  rw [lineHead_none] at h
  cases line with
  | nil => exact absurd rfl hne
  | cons b line =>
      have hdrop : line.dropWhile isBlank = [] :=
        List.dropWhile_eq_nil_iff.mpr fun c hc => h c (List.mem_cons_of_mem b hc)
      rw [loadEnds_skip ((fileStep_blank (h b List.mem_cons_self) line).1 hdrop)]
      rintro ⟨fuel, a', hrun⟩
      have hstuck := loadLog_stuck (h _ (List.getLast_mem (List.cons_ne_nil b line))) fuel a
      rw [← loadLog_fst, hstuck] at hrun
      cases hrun

/-- The rest of a file behind a line, `c` being the first byte of the line that is no blank. -/
theorem fileStep_line {c : UInt8} (hblank : isBlank c = false) (hno : newline ∉ c :: line) (rest : List UInt8) :
    (c = 0xFF → fileStep (c :: line ++ newline :: rest) = .stop) ∧
      (c = hash → fileStep (c :: line ++ newline :: rest) = .skip rest) ∧
      (c ≠ 0xFF → c ≠ hash →
        fileStep (c :: line ++ newline :: rest) = .line (c :: line ++ [newline]) rest) := by
  have hnl : c ≠ newline := fun h => hno (h ▸ List.mem_cons_self)
  obtain ⟨h1, h2⟩ := scan_line hno rest
  rw [List.cons_append] at h1 h2 ⊢
  unfold fileStep
  dsimp only
  refine ⟨fun h => if_pos h, fun h => ?_, fun hff hhash => ?_⟩
  · subst h
    rw [if_neg (by decide), if_pos rfl, (scan_line (fun h => hno (List.mem_cons_of_mem _ h)) rest).2]
    rfl
  · rw [if_neg hff, if_neg hhash, if_neg (by simp [hblank]), if_neg hnl, h1, h2]
    rfl

/-- The last line of a file, `c` being its first byte that is no blank. -/
theorem loadEnds_last {c : UInt8} (hblank : isBlank c = false) (hno : newline ∉ c :: line) (a : AcsmStruct) :
    LoadEnds (c :: line) a := by
  have hnl : c ≠ newline := fun h => hno (h ▸ List.mem_cons_self)
  by_cases hff : c = 0xFF
  · apply loadEnds_stop
    unfold fileStep
    exact if_pos hff
  by_cases hhash : c = hash
  · have hstep : fileStep (c :: line) = .skip [] := by
      unfold fileStep
      dsimp only
      rw [if_neg hff, if_pos hhash, (scan_last fun h => hno (List.mem_cons_of_mem c h)).2]
      rfl
    rw [loadEnds_skip hstep]
    exact loadEnds_stop rfl a
  have hstep : fileStep (c :: line) = .line (c :: line) [] := by
    unfold fileStep
    dsimp only
    rw [if_neg hff, if_neg hhash, if_neg (by simp [hblank]), if_neg hnl, (scan_last hno).1, (scan_last hno).2]
    simp
  by_cases hlen : dirtyLen (c :: line) = 0
  · rw [loadEnds_noCall hstep hlen]
    exact loadEnds_stop rfl a
  · rw [loadEnds_call hstep hlen]
    exact .inr (loadEnds_stop rfl _)

/-- The loop on a line with a newline behind it. -/
theorem loadEnds_line (hno : newline ∉ line) (rest : List UInt8) (a : AcsmStruct) :
    LoadEnds (line ++ newline :: rest) a ↔ lineHead line = some 0xFF ∨
      (lineCall line = none ∧ LoadEnds rest a ∨
        ∃ call, lineCall line = some call ∧ (a.totalPattern ≥ maxPatterns ∨
          LoadEnds rest (acsmAddPattern a call.1 call.2).1)) := by
  cases hhead : lineHead line with
  | none =>
      -- nothing but blanks
      have hcall : lineCall line = none := by
        unfold lineCall
        exact if_pos (.inl hhead)
      have hfile : (line ++ newline :: rest).dropWhile isBlank = newline :: rest := by
        rw [List.dropWhile_append_of_pos (lineHead_none.mp hhead)]
        rfl
      rw [loadEnds_dropWhile (by rw [hfile]; exact List.cons_ne_nil newline rest), hfile, hcall,
        @loadEnds_skip rest _ rfl]
      simp
  | some c =>
      obtain ⟨line', hdrop, hblank, hno'⟩ := lineHead_some hhead hno
      have hfile : (line ++ newline :: rest).dropWhile isBlank = c :: line' ++ newline :: rest := by
        rw [List.dropWhile_append, hdrop]
        rfl
      rw [loadEnds_dropWhile (by rw [hfile]; exact List.cons_ne_nil c _), hfile]
      obtain ⟨heof, hcomment, hword⟩ := fileStep_line hblank hno' rest
      by_cases hff : c = 0xFF
      · exact iff_of_true (loadEnds_stop (heof hff) a) (.inl (congrArg some hff))
      by_cases hhash : c = hash
      · have hcall : lineCall line = none := by
          unfold lineCall
          exact if_pos (.inr (.inl (hhead.trans (congrArg some hhash))))
        rw [loadEnds_skip (hcomment hhash), hcall]
        simp [hff]
      by_cases hlen : dirtyLen (c :: line' ++ [newline]) = 0
      · have hcall : lineCall line = none := by
          unfold lineCall
          rw [hdrop]
          exact if_pos (.inr (.inr hlen))
        rw [loadEnds_noCall (hword hff hhash) hlen, hcall]
        simp [hff]
      · have hcall : lineCall line = some (c :: line' ++ [newline], dirtyLen (c :: line' ++ [newline])) := by
          unfold lineCall
          rw [hdrop, hhead]
          exact if_neg (by simpa [hhash] using hlen)
        rw [loadEnds_call (hword hff hhash) hlen, hcall,
          (acsmAddPattern_slot a (c :: line' ++ [newline], dirtyLen (c :: line' ++ [newline]))).1]
        simp [hff]

/-! ## Files -/

/-- The induction is on the length of the file, a line at a time. -/
theorem loadEnds_iff (file : List UInt8) : ∀ a : AcsmStruct, LoadEnds file a ↔
    ¬ BlanksAtEnd file ∨ LooksLikeEof file ∨ FillsTable a.totalPattern (fileCalls file) := by
  induction h : file.length using Nat.strong_induction_on generalizing file with
  | _ n ih =>
      intro a
      rcases first_line file with hno | ⟨line, rest, rfl, hno⟩
      · rw [blanksAtEnd_last hno, looksLikeEof_last hno, fileCalls_last hno]
        cases hhead : lineHead file with
        | none =>
            by_cases hnil : file = []
            · exact iff_of_true (loadEnds_stop (by rw [hnil]; rfl) a) (.inl fun h => h.1 hnil)
            · refine iff_of_false (not_loadEnds_blanks hnil hhead a) ?_
              simp [hnil, not_fillsTable_nil]
        | some c =>
            refine iff_of_true ?_ (.inl fun h => nomatch h.2)
            obtain ⟨line', hdrop, hblank, hno'⟩ := lineHead_some hhead hno
            have hne : file.dropWhile isBlank ≠ [] := by
              rw [hdrop]
              exact List.cons_ne_nil c line'
            rw [loadEnds_dropWhile hne, hdrop]
            exact loadEnds_last hblank hno' a
      · have hlt : rest.length < n := by
          rw [← h]
          simp
          omega
        rw [loadEnds_line hno, blanksAtEnd_line hno, looksLikeEof_line hno, fileCalls_line hno]
        by_cases hff : lineHead line = some 0xFF
        · simp [hff]
        cases hcall : lineCall line with
        | none =>
            have := ih rest.length hlt rest rfl a
            simp [hff, this]
        | some call =>
            obtain ⟨hfull, hslot⟩ := acsmAddPattern_slot a call
            have := ih rest.length hlt rest rfl (acsmAddPattern a call.1 call.2).1
            show _ ↔ ¬ BlanksAtEnd rest ∨ (_ ∨ _) ∨ FillsTable a.totalPattern (call :: fileCalls rest)
            rw [fillsTable_cons]
            by_cases hroom : a.totalPattern ≥ maxPatterns
            · simp [hroom]
            · rw [hslot hroom] at this
              simp [hff, hroom, this]

/-- The loop of `tm_dirty_load_new` ends unless what stands behind the last newline is a run of blanks
and it has not stopped before: at a byte that looks like the end of the file, or without a slot. -/
theorem tmDirtyLoadNew_ends (hs : Handles) (file : List UInt8) : LoadEnds file (loadTarget hs) ↔
    ¬ BlanksAtEnd file ∨ LooksLikeEof file ∨ FillsTable 0 (fileCalls file) :=
  loadEnds_iff file (loadTarget hs)

/-- The loop does not end on a file that is one blank. -/
theorem not_tmDirtyLoadNew_ends : ¬ ∀ (hs : Handles) (file : List UInt8), LoadEnds file (loadTarget hs) := by
  intro h
  exact not_loadEnds_blanks (List.cons_ne_nil space []) rfl (loadTarget newHandles) (h newHandles [space])

end Taomee.Dirty
