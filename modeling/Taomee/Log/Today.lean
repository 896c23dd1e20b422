import Taomee.Log.Names

/-!
# The lines of a day

A level's files are removed by number only, and never one of the day at which it is done. So whatever is
written stays in the directory for the rest of the day, in a file that is named after the day, however many
processes write to the directory, shift their files and start again, as long as their calls do not overlap.
-/

namespace Taomee.Log

variable {pf : Platform} {pre : Name} {g g' g₁ g₂ g₃ : Globals} {disk disk' d₁ d₂ d₃ : Disk} {lvl lvl' : LogLvl}
  {tm tm' : Tm} {seq : Int} {o : Opening} {m : Met} {start now now' ino : Nat}

/-! ## The directory -/

/-- Each name is that under which its file was created. -/
def Disk.Wf (disk : Disk) : Prop := ∀ e ∈ disk.names, e.2 < disk.next ∧ (disk.files e.2).name = e.1

/-- Names are added, and lines. -/
structure Adds (disk disk' : Disk) : Prop where
  names : ∀ e ∈ disk.names, e ∈ disk'.names
  files : ∀ ino, ino < disk.next → (disk'.files ino).name = (disk.files ino).name ∧
    (disk.files ino).lines <+: (disk'.files ino).lines
  next : disk.next ≤ disk'.next

theorem Adds.refl (disk : Disk) : Adds disk disk := ⟨fun _ h => h, fun _ _ => ⟨rfl, List.prefix_rfl⟩, le_rfl⟩

theorem Adds.trans (h₁ : Adds d₁ d₂) (h₂ : Adds d₂ d₃) : Adds d₁ d₃ where
  names := fun e he => h₂.names e (h₁.names e he)
  files := fun ino hlt =>
    have h₂' := h₂.files ino (hlt.trans_le h₁.next)
    ⟨h₂'.1.trans (h₁.files ino hlt).1, (h₁.files ino hlt).2.trans h₂'.2⟩
  next := h₁.next.trans h₂.next

/-- What is kept on a day: the names of the day, and all lines of all files. -/
structure Kept (pre : Name) (tm : Tm) (disk disk' : Disk) : Prop where
  names : ∀ e ∈ disk.names, (∃ lvl seq, e.1 = nameOf pre lvl tm seq) → e ∈ disk'.names
  files : ∀ ino, ino < disk.next → (disk'.files ino).name = (disk.files ino).name ∧
    (disk.files ino).lines <+: (disk'.files ino).lines
  next : disk.next ≤ disk'.next

theorem Kept.refl (disk : Disk) : Kept pre tm disk disk :=
  ⟨fun _ he _ => he, fun _ _ => ⟨rfl, List.prefix_rfl⟩, le_rfl⟩

theorem Kept.trans (h₁ : Kept pre tm d₁ d₂) (h₂ : Kept pre tm d₂ d₃) : Kept pre tm d₁ d₃ where
  names := fun e he hn => h₂.names e (h₁.names e he hn) hn
  files := fun ino hlt =>
    have h₂' := h₂.files ino (hlt.trans_le h₁.next)
    ⟨h₂'.1.trans (h₁.files ino hlt).1, (h₁.files ino hlt).2.trans h₂'.2⟩
  next := h₁.next.trans h₂.next

theorem Adds.kept (h : Adds disk disk') : Kept pre tm disk disk' := ⟨fun e he _ => h.names e he, h.files, h.next⟩

theorem Kept.sameDay (h : Kept pre tm disk disk') (hday : tm.SameDay tm') : Kept pre tm' disk disk' where
  names := fun e he ⟨lvl, seq, hn⟩ => h.names e he ⟨lvl, seq, by rw [hn, hday.nameOf]⟩
  files := h.files
  next := h.next

/-- What `open` gives: the file that has the name now. -/
structure Opens (disk : Disk) (name : Name) (ino : Nat) (disk' : Disk) : Prop where
  adds : Adds disk disk'
  wf : disk.Wf → disk'.Wf
  mem : (name, ino) ∈ disk'.names

theorem opens_openAppend (disk : Disk) (name : Name) :
    Opens disk name (disk.openAppend name).1 (disk.openAppend name).2 := by
  unfold Disk.openAppend
  cases hfind : disk.names.find? fun e => e.1 = name with
  | some e =>
      have hname : e.1 = name := by simpa using List.find?_some hfind
      subst hname
      exact ⟨.refl disk, id, List.mem_of_find?_eq_some hfind⟩
  | none =>
      have hold : ∀ i, i < disk.next → Function.update disk.files disk.next ⟨name, []⟩ i = disk.files i :=
        fun i hi => Function.update_of_ne hi.ne _ _
      refine ⟨⟨fun e he => List.mem_append_left _ he, fun i hi => ?_, Nat.le_succ _⟩, fun hwf e he => ?_,
        List.mem_append_right _ (List.mem_singleton.mpr rfl)⟩
      · dsimp only
        rw [hold i hi]
        exact ⟨rfl, List.prefix_rfl⟩
      · rcases List.mem_append.mp he with he | he
        · obtain ⟨hlt, hname⟩ := hwf e he
          refine ⟨Nat.lt_succ_of_lt hlt, ?_⟩
          dsimp only
          rw [hold _ hlt, hname]
        · rw [List.mem_singleton.mp he]
          exact ⟨Nat.lt_succ_self _, by simp⟩

theorem adds_append (disk : Disk) (ino : Nat) (line : Line) : Adds disk (disk.append ino line) := by
  refine ⟨fun _ he => he, fun i _ => ?_, le_rfl⟩
  unfold Disk.append
  dsimp only
  by_cases hi : i = ino
  · rw [hi, Function.update_self]
    exact ⟨rfl, List.prefix_append _ _⟩
  · rw [Function.update_of_ne hi]
    exact ⟨rfl, List.prefix_rfl⟩

theorem Disk.Wf.append (hwf : disk.Wf) (ino : Nat) (line : Line) : (disk.append ino line).Wf := fun e he => by
  obtain ⟨hlt, hname⟩ := hwf e he
  exact ⟨hlt, ((adds_append disk ino line).files e.2 hlt).1.trans hname⟩

/-- A file of the day that has the number is the one that has just been opened. -/
theorem kept_rmFilesBySeqno (pf : Platform) (disk : Disk) (seq : Int) (opendir : Bool)
    (hb : (g.fdsInfo lvl).baseFilename = pre ++ lognames lvl) (hvalid : tm.Valid) :
    Kept pre tm disk (rmFilesBySeqno pf g disk lvl seq tm opendir) ∧
      (disk.Wf → (rmFilesBySeqno pf g disk lvl seq tm opendir).Wf) := by
  unfold rmFilesBySeqno
  split_ifs
  · exact ⟨.refl disk, id⟩
  · dsimp only
    cases hfind : disk.names.find? fun e => seq = getLogfileSeqno pf g e.1 lvl ∧ hasBase g lvl e.1 = true ∧
        logFileName g lvl seq tm ≠ e.1 with
    | none => exact ⟨.refl disk, id⟩
    | some gone =>
        obtain ⟨hseq, hbase, hother⟩ : seq = getLogfileSeqno pf g gone.1 lvl ∧ hasBase g lvl gone.1 = true ∧
          logFileName g lvl seq tm ≠ gone.1 := by simpa using List.find?_some hfind
        refine ⟨⟨fun e he ⟨lvl', seq', hn⟩ => List.mem_filter.mpr ⟨he, ?_⟩, fun _ _ => ⟨rfl, List.prefix_rfl⟩, le_rfl⟩,
          fun hwf e he => hwf e (List.mem_filter.mp he).1⟩
        rw [decide_eq_true_eq, hn]
        intro he'
        rw [← he'] at hseq hbase hother
        obtain rfl := ofLevel_nameOf.mp ((hasBase_iff hb).mp hbase)
        rw [getLogfileSeqno_nameOf hb hvalid] at hseq
        subst hseq
        exact hother (logFileName_eq hb)

/-! ## The globals -/

/-- What shifting the file of a level leaves as it was. -/
structure Touches (lvl : LogLvl) (g g' : Globals) : Prop where
  others : ∀ lvl', lvl' ≠ lvl → g'.fdsInfo lvl' = g.fdsInfo lvl'
  base : ∀ lvl', (g'.fdsInfo lvl').baseFilename = (g.fdsInfo lvl').baseFilename
  interval : g'.logtimeInterval = g.logtimeInterval
  destFile : g'.destFile = g.destFile
  hasInit : g'.hasInit = g.hasInit
  config : g'.configMaxLogFiles = g.configMaxLogFiles
  size : g'.logSize = g.logSize

theorem Touches.refl (g : Globals) : Touches lvl g g := ⟨fun _ _ => rfl, fun _ => rfl, rfl, rfl, rfl, rfl, rfl⟩

theorem Touches.trans (h₁ : Touches lvl g₁ g₂) (h₂ : Touches lvl g₂ g₃) : Touches lvl g₁ g₃ where
  others := fun lvl' hne => (h₂.others lvl' hne).trans (h₁.others lvl' hne)
  base := fun lvl' => (h₂.base lvl').trans (h₁.base lvl')
  interval := h₂.interval.trans h₁.interval
  destFile := h₂.destFile.trans h₁.destFile
  hasInit := h₂.hasInit.trans h₁.hasInit
  config := h₂.config.trans h₁.config
  size := h₂.size.trans h₁.size

theorem Touches.based (h : Touches lvl g g') (hb : Based pre g) : Based pre g' := fun lvl' => (h.base lvl').trans (hb lvl')

theorem touches_setFds {f : Fds → Fds} (hf : ∀ fds, (f fds).baseFilename = fds.baseFilename) :
    Touches lvl g (g.setFds lvl f) := by
  refine ⟨fun lvl' hne => Function.update_of_ne hne _ _, fun lvl' => ?_, rfl, rfl, rfl, rfl, rfl⟩
  by_cases hl : lvl' = lvl
  · subst hl
    simp [Globals.setFds, hf]
  · simp [Globals.setFds, hl]

@[simp] theorem setFds_self (f : Fds → Fds) : (g.setFds lvl f).fdsInfo lvl = f (g.fdsInfo lvl) :=
  Function.update_self _ _ _

theorem touches_setMax (n : Nat) : Touches lvl g (g.setMax n) :=
  ⟨fun _ _ => rfl, fun _ => rfl, rfl, rfl, rfl, rfl, rfl⟩

theorem touches_countDay : Touches lvl g (countDay g lvl tm) := by
  unfold countDay
  split_ifs
  · exact (touches_setFds (by intro; rfl)).trans (touches_setMax _)
  · exact touches_setFds (by intro; rfl)

theorem touches_giveUpRecycle : Touches lvl g (giveUpRecycle g lvl) := by
  unfold giveUpRecycle
  split_ifs
  · exact (touches_setFds (by intro; rfl)).trans (touches_setMax _)
  · exact .refl g

theorem touches_countOpened : Touches lvl g (countOpened g lvl tm ino) :=
  ((touches_setFds (by intro; rfl)).trans touches_countDay).trans touches_giveUpRecycle

theorem countOpened_opfd : ((countOpened g lvl tm ino).fdsInfo lvl).opfd = some ino := by
  unfold countOpened giveUpRecycle countDay
  split_ifs <;> simp [Globals.setMax]

theorem countOpened_day : ((countOpened g lvl tm ino).fdsInfo lvl).day = tm.yday := by
  have hday : ∀ g : Globals, ((countDay g lvl tm).fdsInfo lvl).day = tm.yday := fun g => by
    unfold countDay
    split_ifs with h
    · simp [Globals.setMax]
    · simpa using h
  unfold countOpened giveUpRecycle
  split_ifs
  · simp [Globals.setMax, hday]
  · exact hday _

theorem touches_openFd : Touches lvl g (openFd pf g disk lvl tm o).1 := by
  have hclosed : Touches lvl g (g.setFds lvl fun fds => { fds with opfd := none }) := touches_setFds (by intro; rfl)
  unfold openFd
  dsimp only
  split_ifs
  · exact hclosed
  · exact touches_countOpened
  · exact touches_countOpened

/-! ## The file of a level -/

/-- Not by time intervals. -/
def BySize (g : Globals) : Prop := g.logtimeInterval = 0

theorem Touches.bySize (h : Touches lvl g g') (hs : BySize g) : BySize g' := h.interval.trans hs

/-- The open file of a level has a name of the day at which it was opened, and is in the directory as long as
it is that day. -/
def FdOk (pf : Platform) (pre : Name) (start now : Nat) (lvl : LogLvl) (fds : Fds) (disk : Disk) : Prop :=
  ∀ ino, fds.opfd = some ino → ino < disk.next ∧ ∃ t seq, start ≤ t ∧ t ≤ now ∧ (pf.localtime t).yday = fds.day ∧
    (disk.files ino).name = nameOf pre lvl (pf.localtime t) seq ∧
    ((pf.localtime t).SameDay (pf.localtime now) → ((disk.files ino).name, ino) ∈ disk.names)

/-- Dates have their width, and a date lasts without a break. -/
structure Calendar (pf : Platform) : Prop where
  valid : ∀ t, (pf.localtime t).Valid
  between : ∀ t₁ t₂ t₃, t₁ ≤ t₂ → t₂ ≤ t₃ → (pf.localtime t₁).SameDay (pf.localtime t₃) →
    (pf.localtime t₁).SameDay (pf.localtime t₂)

theorem Tm.SameDay.trans {tm'' : Tm} (h : tm.SameDay tm') (h' : tm'.SameDay tm'') : tm.SameDay tm'' :=
  ⟨h.1.trans h'.1, h.2.1.trans h'.2.1, h.2.2.trans h'.2.2⟩

theorem FdOk.kept (hcal : Calendar pf) {fds : Fds} (h : FdOk pf pre start now lvl fds disk) (hnow : now ≤ now')
    (hk : Kept pre (pf.localtime now') disk disk') : FdOk pf pre start now' lvl fds disk' := by
  intro ino hino
  obtain ⟨hlt, t, seq, hstart, ht, hday, hname, hmem⟩ := h ino hino
  refine ⟨hlt.trans_le hk.next, t, seq, hstart, ht.trans hnow, hday, (hk.files ino hlt).1.trans hname, fun hsame => ?_⟩
  rw [(hk.files ino hlt).1]
  refine hk.names _ (hmem (hcal.between t now now' ht hnow hsame)) ⟨lvl, seq, ?_⟩
  rw [hname, hsame.nameOf]

theorem FdOk.none {fds : Fds} (h : fds.opfd = none) : FdOk pf pre start now lvl fds disk := fun ino hino => by
  rw [h] at hino
  cases hino

/-- What a function that opens and writes files for a level does on a day. -/
structure Serves (pf : Platform) (pre : Name) (start now : Nat) (lvl : LogLvl) (g : Globals) (disk : Disk) (g' : Globals)
    (disk' : Disk) : Prop where
  touches : Touches lvl g g'
  kept : Kept pre (pf.localtime now) disk disk'
  wf : disk'.Wf
  fdOk : FdOk pf pre start now lvl (g'.fdsInfo lvl) disk'

theorem logFilePath_eq (hb : Based pre g) (hs : BySize g) (time : Nat) :
    logFilePath pf g lvl seq tm time = nameOf pre lvl tm seq := by
  have hint : ¬ g.logtimeInterval ≠ 0 := not_not.mpr hs
  rw [logFilePath, if_neg hint, logFileName_eq (hb lvl)]

theorem serves_openFd (hcal : Calendar pf) (hb : Based pre g) (hs : BySize g) (hwf : disk.Wf) (hstart : start ≤ now) :
    Serves pf pre start now lvl g disk (openFd pf g disk lvl (pf.localtime now) o).1
      (openFd pf g disk lvl (pf.localtime now) o).2 ∧
      (((openFd pf g disk lvl (pf.localtime now) o).1.fdsInfo lvl).opfd ≠ none →
        ((openFd pf g disk lvl (pf.localtime now) o).1.fdsInfo lvl).day = (pf.localtime now).yday) := by
  unfold openFd
  rw [logFilePath_eq hb hs]
  by_cases hopens : (!o.opens) = true
  · rw [if_pos hopens]
    have ht : Touches lvl g (g.setFds lvl fun fds => { fds with opfd := none }) := touches_setFds (by intro; rfl)
    refine ⟨⟨ht, .refl disk, hwf, .none (by simp)⟩, fun hne => ?_⟩
    simp at hne
  · rw [if_neg hopens]
    have hop := opens_openAppend disk (nameOf pre lvl (pf.localtime now) (g.fdsInfo lvl).seq)
    generalize disk.openAppend (nameOf pre lvl (pf.localtime now) (g.fdsInfo lvl).seq) = opened at hop ⊢
    obtain ⟨ino, disk₁⟩ := opened
    dsimp only at hop ⊢
    have hwf₁ := hop.wf hwf
    have hfd : FdOk pf pre start now lvl ((countOpened g lvl (pf.localtime now) ino).fdsInfo lvl) disk₁ := by
      intro ino' hino'
      rw [countOpened_opfd] at hino'
      obtain rfl := Option.some.inj hino'
      obtain ⟨hlt, hfile⟩ := hwf₁ _ hop.mem
      refine ⟨hlt, now, (g.fdsInfo lvl).seq, hstart, le_rfl, countOpened_day.symm, hfile, fun _ => ?_⟩
      rw [hfile]
      exact hop.mem
    split_ifs
    · obtain ⟨hkept, hwf₂⟩ := kept_rmFilesBySeqno pf disk₁ ((countOpened g lvl (pf.localtime now) ino).fdsInfo lvl).seq
        o.opendir (touches_countOpened.based hb lvl) (hcal.valid now)
      exact ⟨⟨touches_countOpened, hop.adds.kept.trans hkept, hwf₂ hwf₁, hfd.kept hcal le_rfl hkept⟩,
        fun _ => countOpened_day⟩
    · exact ⟨⟨touches_countOpened, hop.adds.kept, hwf₁, hfd⟩, fun _ => countOpened_day⟩

theorem Serves.trans (h₁ : Serves pf pre start now lvl g₁ d₁ g₂ d₂) (h₂ : Serves pf pre start now lvl g₂ d₂ g₃ d₃) :
    Serves pf pre start now lvl g₁ d₁ g₃ d₃ :=
  ⟨h₁.touches.trans h₂.touches, h₁.kept.trans h₂.kept, h₂.wf, h₂.fdOk⟩

theorem serves_shiftOpened (ino : Nat) (hcal : Calendar pf) (hb : Based pre g) (hs : BySize g) (hwf : disk.Wf)
    (hstart : start ≤ now) (hfd : FdOk pf pre start now lvl (g.fdsInfo lvl) disk) :
    Serves pf pre start now lvl g disk (shiftOpened pf g disk lvl (pf.localtime now) m ino).1
      (shiftOpened pf g disk lvl (pf.localtime now) m ino).2 ∧
      (((shiftOpened pf g disk lvl (pf.localtime now) m ino).1.fdsInfo lvl).opfd ≠ none →
        ((shiftOpened pf g disk lvl (pf.localtime now) m ino).1.fdsInfo lvl).day = (pf.localtime now).yday) := by
  unfold shiftOpened
  split_ifs with hup
  · refine ⟨⟨.refl g, .refl disk, hwf, hfd⟩, fun _ => ?_⟩
    have hint : ¬ g.logtimeInterval ≠ 0 := not_not.mpr hs
    rw [upToDate, if_neg hint, Bool.and_eq_true, decide_eq_true_eq, decide_eq_true_eq] at hup
    exact hup.2
  · have ht : Touches lvl g (g.setFds lvl fun fds => { fds with seq := nextSeq g lvl (pf.localtime now) m.shift }) :=
      touches_setFds (by intro; rfl)
    obtain ⟨hserves, hday⟩ := serves_openFd (o := m.second) hcal (ht.based hb) (ht.bySize hs) hwf hstart
    exact ⟨⟨ht.trans hserves.touches, hserves.kept, hserves.wf, hserves.fdOk⟩, hday⟩

theorem serves_shiftFd (hcal : Calendar pf) (hb : Based pre g) (hs : BySize g) (hwf : disk.Wf) (hstart : start ≤ now)
    (hfd : FdOk pf pre start now lvl (g.fdsInfo lvl) disk) :
    Serves pf pre start now lvl g disk (shiftFd pf g disk lvl (pf.localtime now) m).1
      (shiftFd pf g disk lvl (pf.localtime now) m).2 ∧
      (((shiftFd pf g disk lvl (pf.localtime now) m).1.fdsInfo lvl).opfd ≠ none →
        ((shiftFd pf g disk lvl (pf.localtime now) m).1.fdsInfo lvl).day = (pf.localtime now).yday) := by
  unfold shiftFd
  cases hopfd : (g.fdsInfo lvl).opfd with
  | some ino => exact serves_shiftOpened ino hcal hb hs hwf hstart hfd
  | none =>
      obtain ⟨hserves, hday⟩ := serves_openFd (o := m.first) hcal hb hs hwf hstart
      generalize openFd pf g disk lvl (pf.localtime now) m.first = opened at hserves hday ⊢
      obtain ⟨g₁, disk₁⟩ := opened
      dsimp only at hserves hday ⊢
      cases hopfd₁ : (g₁.fdsInfo lvl).opfd with
      | none =>
          dsimp only
          rw [hopfd₁] at hday ⊢
          exact ⟨hserves, hday⟩
      | some ino =>
          obtain ⟨hserves₂, hday₂⟩ := serves_shiftOpened (m := m) ino hcal (hserves.touches.based hb)
            (hserves.touches.bySize hs) hserves.wf hstart hserves.fdOk
          exact ⟨hserves.trans hserves₂, hday₂⟩

variable {key pid : Nat} {text : List UInt8}

/-- What a call of `write_log` does. A line that is written is in the level's file of the day. -/
theorem serves_writeLog (key pid : Nat) (text : List UInt8) (hcal : Calendar pf) (hb : g.destFile = true → Based pre g)
    (hs : BySize g) (hwf : disk.Wf) (hnow : now ≤ m.now) (hstart : start ≤ now)
    (hfd : FdOk pf pre start now lvl (g.fdsInfo lvl) disk) :
    Serves pf pre start m.now lvl g disk (writeLog pf g disk lvl key pid text m).1
      (writeLog pf g disk lvl key pid text m).2.1 ∧
      ((writeLog pf g disk lvl key pid text m).2.2 = true → ∃ ino,
        ((writeLog pf g disk lvl key pid text m).1.fdsInfo lvl).opfd = some ino ∧
        ((writeLog pf g disk lvl key pid text m).1.fdsInfo lvl).day = (pf.localtime m.now).yday ∧
        logLine (pf.localtime m.now) key pid text ∈ ((writeLog pf g disk lvl key pid text m).2.1.files ino).lines) := by
  have hfd' : FdOk pf pre start m.now lvl (g.fdsInfo lvl) disk := hfd.kept hcal hnow (.refl disk)
  have hnothing : Serves pf pre start m.now lvl g disk g disk := ⟨.refl g, .refl disk, hwf, hfd'⟩
  unfold writeLog
  split_ifs with hlevel hdest
  · exact ⟨hnothing, nofun⟩
  · exact ⟨hnothing, nofun⟩
  · have hbased := hb (by simpa using hdest)
    obtain ⟨hserves, hday⟩ := serves_shiftFd (m := m) hcal hbased hs hwf (hstart.trans hnow) hfd'
    dsimp only
    generalize shiftFd pf g disk lvl (pf.localtime m.now) m = shifted at hserves hday ⊢
    obtain ⟨g₁, disk₁⟩ := shifted
    dsimp only at hserves hday ⊢
    cases hopfd : (g₁.fdsInfo lvl).opfd with
    | none => exact ⟨hserves, nofun⟩
    | some ino =>
        have hkept : Kept pre (pf.localtime m.now) disk₁ (disk₁.append ino (logLine (pf.localtime m.now) key pid text)) :=
          (adds_append _ _ _).kept
        refine ⟨⟨hserves.touches, hserves.kept.trans hkept, hserves.wf.append _ _, hserves.fdOk.kept hcal le_rfl hkept⟩,
          fun _ => ⟨ino, hopfd, hday (by rw [hopfd]; simp), ?_⟩⟩
        simp [Disk.append]

/-! ## Initialisation -/

/-- A level is as it was, or its file has been closed and its name set. -/
def InitLevel (pre : Name) (g g' : Globals) (lvl : LogLvl) : Prop :=
  g'.fdsInfo lvl = g.fdsInfo lvl ∨
    (g'.fdsInfo lvl).opfd = none ∧ (g'.fdsInfo lvl).baseFilename = pre ++ lognames lvl

variable {im : InitMet} {lvls : List LogLvl}

theorem initLevel_other (h : lvl' ≠ lvl) : (initLevel pf g disk im lvl).fdsInfo lvl' = g.fdsInfo lvl' := by
  simp [initLevel, Globals.setFds, h]

theorem initLevel_self (hpre : g.logPre = pre) : ((initLevel pf g disk im lvl).fdsInfo lvl).opfd = none ∧
    ((initLevel pf g disk im lvl).fdsInfo lvl).baseFilename = pre ++ lognames lvl := by
  simp [initLevel, Globals.setFds, hpre]

theorem initLevel_level (hpre : g.logPre = pre) : InitLevel pre g (initLevel pf g disk im lvl') lvl := by
  by_cases h : lvl = lvl'
  · subst h
    exact .inr (initLevel_self hpre)
  · exact .inl (initLevel_other h)

theorem InitLevel.trans (h₁ : InitLevel pre g₁ g₂ lvl) (h₂ : InitLevel pre g₂ g₃ lvl) : InitLevel pre g₁ g₃ lvl := by
  rcases h₂ with h₂ | h₂
  · unfold InitLevel
    rw [h₂]
    exact h₁
  · exact .inr h₂

/-- What the loop of `log_init` leaves. -/
structure Inited (pre : Name) (lvls : List LogLvl) (g g' : Globals) (ok : Bool) : Prop where
  interval : g'.logtimeInterval = g.logtimeInterval
  hasInit : g'.hasInit = g.hasInit
  destFile : g'.destFile = g.destFile
  max : g'.maxLogFiles = g.maxLogFiles
  config : g'.configMaxLogFiles = g.configMaxLogFiles
  levels : ∀ lvl, InitLevel pre g g' lvl
  based : ok = true → ∀ lvl ∈ lvls, (g'.fdsInfo lvl).baseFilename = pre ++ lognames lvl

theorem inited_initLoop : ∀ {lvls : List LogLvl} {g : Globals}, g.logPre = pre →
    Inited pre lvls g (initLoop pf disk im lvls g).1 (initLoop pf disk im lvls g).2
  | [], g, _ => ⟨rfl, rfl, rfl, rfl, rfl, fun _ => .inl rfl, fun _ _ h => nomatch h⟩
  | lvl :: lvls, g, hpre => by
      unfold initLoop
      dsimp only
      have hfirst : ∀ lvl', InitLevel pre g (initLevel pf g disk im lvl) lvl' := fun _ => initLevel_level hpre
      split_ifs
      · exact ⟨rfl, rfl, rfl, rfl, rfl, hfirst, nofun⟩
      · have hrest : Inited pre lvls (initLevel pf g disk im lvl) (initLoop pf disk im lvls (initLevel pf g disk im lvl)).1
            (initLoop pf disk im lvls (initLevel pf g disk im lvl)).2 := inited_initLoop hpre
        refine ⟨hrest.interval, hrest.hasInit, hrest.destFile, hrest.max, hrest.config,
          fun lvl' => (hfirst lvl').trans (hrest.levels lvl'), fun hok lvl' hmem => ?_⟩
        rcases List.mem_cons.mp hmem with rfl | hmem
        · rcases hrest.levels lvl' with h | h
          · rw [h]
            exact (initLevel_self hpre).2
          · exact h.2
        · exact hrest.based hok lvl' hmem

theorem mem_logLvls (lvl : LogLvl) : lvl ∈ logLvls := by
  cases lvl <;> decide

/-- The loop of `log_init` goes through when it gives no level a number below zero, and then each level is as
its turn has left it. -/
theorem initLoop_levels (pf : Platform) (disk : Disk) (im : InitMet) {Q : Globals → Prop} {P : LogLvl → Fds → Prop}
    (hset : ∀ g lvl, Q g → Q (initLevel pf g disk im lvl))
    (hturn : ∀ g lvl, Q g → P lvl ((initLevel pf g disk im lvl).fdsInfo lvl)) (hseq : ∀ lvl fds, P lvl fds → 0 ≤ fds.seq) :
    ∀ (lvls : List LogLvl) {g : Globals}, Q g → (initLoop pf disk im lvls g).2 = true ∧
      ∀ lvl, lvl ∈ lvls ∨ P lvl (g.fdsInfo lvl) → P lvl ((initLoop pf disk im lvls g).1.fdsInfo lvl)
  | [], _, _ => ⟨rfl, fun _ h => h.resolve_left List.not_mem_nil⟩
  | lvl :: lvls, g, hg => by
      obtain ⟨hok, hlevels⟩ := initLoop_levels pf disk im hset hturn hseq lvls (hset g lvl hg)
      have hnonneg : ¬ ((initLevel pf g disk im lvl).fdsInfo lvl).seq < 0 := not_lt.mpr (hseq lvl _ (hturn g lvl hg))
      unfold initLoop
      dsimp only
      rw [if_neg hnonneg]
      refine ⟨hok, fun lvl' h => hlevels lvl' ?_⟩
      by_cases hl : lvl' = lvl
      · subst hl
        exact .inr (hturn g lvl' hg)
      · rw [initLevel_other hl]
        exact h.imp_left fun hmem => (List.mem_cons.mp hmem).resolve_left hl

/-! ## Processes -/

/-- What holds of each process: it shifts its files by size, and its open files are in order. -/
structure ProcOk (pf : Platform) (pre : Name) (start now : Nat) (g : Globals) (disk : Disk) : Prop where
  bySize : BySize g
  based : g.hasInit = true → Based pre g
  dest : g.destFile = true → g.hasInit = true
  fdOk : ∀ lvl, FdOk pf pre start now lvl (g.fdsInfo lvl) disk

theorem ProcOk.later (hcal : Calendar pf) (h : ProcOk pf pre start now g disk) (hnow : now ≤ now')
    (hk : Kept pre (pf.localtime now') disk disk') : ProcOk pf pre start now' g disk' :=
  ⟨h.bySize, h.based, h.dest, fun lvl => (h.fdOk lvl).kept hcal hnow hk⟩

theorem procOk_start : ProcOk pf pre start now .start disk := ⟨rfl, nofun, nofun, fun _ => .none rfl⟩

theorem ProcOk.serves {g' : Globals} (hcal : Calendar pf) (h : ProcOk pf pre start now g disk) (hnow : now ≤ now')
    (hserves : Serves pf pre start now' lvl g disk g' disk') : ProcOk pf pre start now' g' disk' where
  bySize := hserves.touches.bySize h.bySize
  based := fun hinit => hserves.touches.based (h.based (by rwa [← hserves.touches.hasInit]))
  dest := fun hdest => by
    rw [hserves.touches.hasInit]
    exact h.dest (by rwa [← hserves.touches.destFile])
  fdOk := fun lvl' => by
    by_cases hl : lvl' = lvl
    · subst hl
      exact hserves.fdOk
    · rw [hserves.touches.others lvl' hl]
      exact (h.fdOk lvl').kept hcal hnow hserves.kept

theorem Inited.fdOk {ok : Bool} (h : Inited pre logLvls g g' ok) (hfd : ∀ lvl, FdOk pf pre start now lvl (g.fdsInfo lvl) disk)
    (lvl : LogLvl) : FdOk pf pre start now lvl (g'.fdsInfo lvl) disk := by
  rcases h.levels lvl with hl | hl
  · rw [hl]
    exact hfd lvl
  · exact .none hl.1

theorem Inited.based_of_based {ok : Bool} (h : Inited pre logLvls g g' ok) (hb : Based pre g) : Based pre g' := by
  intro lvl
  rcases h.levels lvl with hl | hl
  · rw [hl]
    exact hb lvl
  · exact hl.2

/-- `log_init` closes the files of the levels that it gets to, also where it fails. -/
theorem ProcOk.logInit {level : LogLvl} {size maxfiles : Nat} (h : ProcOk pf (pre.take 31) start now g disk) :
    ProcOk pf (pre.take 31) start now (logInit pf g disk level size maxfiles (some pre) im).1 disk := by
  have hset : ProcOk pf (pre.take 31) start now (g.configure level size maxfiles) disk :=
    ⟨h.bySize, h.based, h.dest, h.fdOk⟩
  unfold Log.logInit
  by_cases hsize : size > 2 ^ 31
  · rw [if_pos hsize]
    exact hset
  · rw [if_neg hsize]
    by_cases hwritable : (!im.writable) = true
    · rw [if_pos hwritable]
      exact hset
    · rw [if_neg hwritable]
      dsimp only
      have hset₁ : ProcOk pf (pre.take 31) start now ((g.configure level size maxfiles).setPre (some pre)) disk :=
        ⟨hset.bySize, hset.based, hset.dest, hset.fdOk⟩
      have hi : Inited (pre.take 31) logLvls ((g.configure level size maxfiles).setPre (some pre))
          (initLoop pf disk im logLvls ((g.configure level size maxfiles).setPre (some pre))).1
          (initLoop pf disk im logLvls ((g.configure level size maxfiles).setPre (some pre))).2 := inited_initLoop rfl
      generalize initLoop pf disk im logLvls ((g.configure level size maxfiles).setPre (some pre)) = inited at hi ⊢
      obtain ⟨g₂, ok⟩ := inited
      dsimp only at hi ⊢
      cases ok with
      | false =>
          refine ⟨hi.interval.trans hset₁.bySize, fun hinit => ?_, fun hdest => ?_, hi.fdOk hset₁.fdOk⟩
          · exact hi.based_of_based (hset₁.based (hi.hasInit.symm.trans hinit))
          · exact hi.hasInit.trans (hset₁.dest (hi.destFile.symm.trans hdest))
      | true =>
          exact ⟨hi.interval.trans hset₁.bySize, fun _ lvl => hi.based rfl lvl (mem_logLvls lvl), fun _ => rfl,
            hi.fdOk hset₁.fdOk⟩

/-- The processes, the directory and the time. -/
structure World where
  procs : Nat → Globals
  disk : Disk
  now : Nat

/-- A process calls the interface, the directory gives its names in another order, or time goes by. The calls of the
processes follow one another: each ends before the next one begins, and their times do not decrease. All processes
give `log_init` the same `pre_name`. Whether `opendir` may fail is a parameter. -/
inductive Step (pf : Platform) (pre : Name) (faults : Prop) : World → World → Prop
  | write {w : World} (p : Nat) (lvl : LogLvl) (key pid : Nat) (text : List UInt8) (m : Met) : w.now ≤ m.now →
      (¬ faults → m.first.opendir = true ∧ m.second.opendir = true) →
      Step pf pre faults w
        { procs := Function.update w.procs p (writeLog pf (w.procs p) w.disk lvl key pid text m).1
          disk := (writeLog pf (w.procs p) w.disk lvl key pid text m).2.1
          now := m.now }
  | init {w : World} (p : Nat) (level : LogLvl) (size maxfiles : Nat) (im : InitMet) :
      (¬ faults → ∀ lvl, im.opendir lvl = true) →
      Step pf pre faults w
        { w with procs := Function.update w.procs p (logInit pf (w.procs p) w.disk level size maxfiles (some pre) im).1 }
  | fini {w : World} (p : Nat) : Step pf pre faults w { w with procs := Function.update w.procs p logFini }
  | dest {w : World} (p : Nat) (destFile : Bool) : (w.procs p).hasInit = true →
      Step pf pre faults w { w with procs := Function.update w.procs p (setLogDest (w.procs p) destFile) }
  | order {w : World} (names : List (Name × Nat)) : names.Perm w.disk.names →
      Step pf pre faults w { w with disk := { w.disk with names := names } }
  | time {w : World} (now : Nat) : w.now ≤ now → Step pf pre faults w { w with now := now }

/-- Some steps. -/
inductive Run (pf : Platform) (pre : Name) (faults : Prop) : World → World → Prop
  | refl (w : World) : Run pf pre faults w w
  | tail {w w₁ w₂ : World} : Run pf pre faults w w₁ → Step pf pre faults w₁ w₂ → Run pf pre faults w w₂

/-- Nothing has been called, and the directory is in order. -/
structure World.Start (w : World) : Prop where
  procs : ∀ p, w.procs p = .start
  disk : w.disk.Wf

/-- The invariant of all runs. -/
structure World.Ok (pf : Platform) (pre : Name) (start : Nat) (w : World) : Prop where
  procs : ∀ p, ProcOk pf (pre.take 31) start w.now (w.procs p) w.disk
  disk : w.disk.Wf
  started : start ≤ w.now

variable {w w₁ w₂ : World} {faults : Prop}

theorem World.Start.ok (h : w.Start) : w.Ok pf pre w.now :=
  ⟨fun p => by rw [h.procs]; exact procOk_start, h.disk, le_rfl⟩

theorem Perm.kept (pre : Name) (tm : Tm) {names : List (Name × Nat)} (h : names.Perm disk.names) :
    Kept pre tm disk { disk with names := names } :=
  ⟨fun _ he _ => h.mem_iff.mpr he, fun _ _ => ⟨rfl, List.prefix_rfl⟩, le_rfl⟩

/-- A step of one process leaves the others in order. -/
theorem World.Ok.update (hcal : Calendar pf) (h : w.Ok pf pre start) {p : Nat} (hnow : w.now ≤ now')
    (hk : Kept (pre.take 31) (pf.localtime now') w.disk disk') (hwf : disk'.Wf)
    (hp : ProcOk pf (pre.take 31) start now' g' disk') :
    World.Ok pf pre start { procs := Function.update w.procs p g', disk := disk', now := now' } := by
  refine ⟨fun q => ?_, hwf, h.started.trans hnow⟩
  by_cases hq : q = p
  · subst hq
    simpa using hp
  · have hother : Function.update w.procs p g' q = w.procs q := Function.update_of_ne hq _ _
    dsimp only
    rw [hother]
    exact (h.procs q).later hcal hnow hk

/-- The step lemma: the invariant, and what is kept on the day at which the step ends. -/
theorem Step.ok (hcal : Calendar pf) (hstep : Step pf pre faults w w₁) (h : w.Ok pf pre start) :
    w₁.Ok pf pre start ∧ w.now ≤ w₁.now ∧ Kept (pre.take 31) (pf.localtime w₁.now) w.disk w₁.disk := by
  cases hstep with
  | write p lvl key pid text m hnow _ =>
      have hproc := h.procs p
      obtain ⟨hserves, -⟩ := serves_writeLog key pid text hcal
        (fun hdest => hproc.based (hproc.dest hdest)) hproc.bySize h.disk hnow h.started (hproc.fdOk lvl)
      exact ⟨h.update hcal hnow hserves.kept hserves.wf (hproc.serves hcal hnow hserves), hnow, hserves.kept⟩
  | init p level size maxfiles im _ =>
      exact ⟨h.update hcal le_rfl (.refl _) h.disk (h.procs p).logInit, le_rfl, .refl _⟩
  | fini p => exact ⟨h.update hcal le_rfl (.refl _) h.disk procOk_start, le_rfl, .refl _⟩
  | dest p destFile hinit =>
      have hproc := h.procs p
      exact ⟨h.update hcal le_rfl (.refl _) h.disk ⟨hproc.bySize, hproc.based, fun _ => hinit, hproc.fdOk⟩, le_rfl, .refl _⟩
  | order names hperm =>
      have hk := Perm.kept (pre.take 31) (pf.localtime w.now) hperm
      exact ⟨⟨fun p => (h.procs p).later hcal le_rfl hk, fun e he => h.disk e (hperm.mem_iff.mp he), h.started⟩, le_rfl, hk⟩
  | time now hnow =>
      exact ⟨⟨fun p => (h.procs p).later hcal hnow (.refl _), h.disk, h.started.trans hnow⟩, hnow, .refl _⟩

theorem Run.ok (hcal : Calendar pf) (hr : Run pf pre faults w w₁) (h : w.Ok pf pre start) :
    w₁.Ok pf pre start ∧ w.now ≤ w₁.now := by
  induction hr with
  | refl => exact ⟨h, le_rfl⟩
  | tail _ hstep ih =>
      obtain ⟨hok, hnow, -⟩ := hstep.ok hcal ih.1
      exact ⟨hok, ih.2.trans hnow⟩

/-- The run lemma: all that is kept on one day is kept by the steps that end on it. -/
theorem Run.kept (hcal : Calendar pf) (hr : Run pf pre faults w w₁) (h : w.Ok pf pre start)
    (hday : (pf.localtime w.now).SameDay (pf.localtime w₁.now)) :
    Kept (pre.take 31) (pf.localtime w₁.now) w.disk w₁.disk := by
  induction hr with
  | refl => exact .refl _
  | @tail w₁ w₂ hr hstep ih =>
      obtain ⟨hok, hnow⟩ := hr.ok hcal h
      obtain ⟨-, hnow₂, hkept⟩ := hstep.ok hcal hok
      have hday₁ := hcal.between w.now w₁.now w₂.now hnow hnow₂ hday
      exact ((ih hday₁).sameDay (hday₁.symm.trans hday)).trans hkept

/-- The world after a call of `write_log`. -/
def World.write (pf : Platform) (w : World) (p : Nat) (lvl : LogLvl) (key pid : Nat) (text : List UInt8) (m : Met) : World where
  procs := Function.update w.procs p (writeLog pf (w.procs p) w.disk lvl key pid text m).1
  disk := (writeLog pf (w.procs p) w.disk lvl key pid text m).2.1
  now := m.now

/-- In every run of less than a year, with any number of processes whose calls follow one another and that write,
shift, fail to open, start again and take each other's numbers: a line that is written is, for the rest of the day, in a file of the
directory that has the level and the day in its name. -/
theorem written_stays (hcal : Calendar pf) {w₀ : World} (hstart : w₀.Start) (hr : Run pf pre True w₀ w) {p : Nat}
    (hnow : w.now ≤ m.now) (hwritten : (writeLog pf (w.procs p) w.disk lvl key pid text m).2.2 = true)
    (hr₂ : Run pf pre True (w.write pf p lvl key pid text m) w₂)
    (hyear : ∀ t t', w₀.now ≤ t → t ≤ w₂.now → w₀.now ≤ t' → t' ≤ w₂.now →
      (pf.localtime t).yday = (pf.localtime t').yday → (pf.localtime t).SameDay (pf.localtime t'))
    (hday : (pf.localtime m.now).SameDay (pf.localtime w₂.now)) :
    ∃ seq ino, (nameOf (pre.take 31) lvl (pf.localtime m.now) seq, ino) ∈ w₂.disk.names ∧
      logLine (pf.localtime m.now) key pid text ∈ (w₂.disk.files ino).lines := by
  obtain ⟨hok, hle⟩ := hr.ok hcal hstart.ok
  have hproc := hok.procs p
  have hstep : Step pf pre True w (w.write pf p lvl key pid text m) :=
    .write p lvl key pid text m hnow fun hnot => absurd trivial hnot
  obtain ⟨hok₁, -, -⟩ := hstep.ok hcal hok
  obtain ⟨hok₂, hle₂⟩ := hr₂.ok hcal hok₁
  obtain ⟨hserves, hline⟩ := serves_writeLog key pid text hcal
    (fun hdest => hproc.based (hproc.dest hdest)) hproc.bySize hok.disk hnow hok.started (hproc.fdOk lvl)
  obtain ⟨ino, hopfd, hyday, hmem⟩ := hline hwritten
  obtain ⟨hlt, t, seq, ht₀, ht, htday, hname, hlinked⟩ := hserves.fdOk ino hopfd
  -- the file may have been opened long before, but the day of the year is the same
  have hsame : (pf.localtime t).SameDay (pf.localtime m.now) :=
    hyear t m.now ht₀ (ht.trans hle₂) (hle.trans hnow) hle₂ (htday.trans hyday)
  have hkept := hr₂.kept hcal hok₁ hday
  refine ⟨seq, ino, ?_, (hkept.files ino hlt).2.subset hmem⟩
  have hlinked' := hlinked hsame
  rw [hname, hsame.nameOf] at hlinked'
  exact hkept.names _ hlinked' ⟨lvl, seq, by rw [hday.nameOf]⟩

/-! ### Two processes on one day -/

/-- Two days, of which the second does not end. -/
def twoDays : Platform where
  localtime := fun t =>
    let day := if t < 86400 then 0 else 1
    ⟨2014, 5, 4 + day, 123 + day, t / 3600 % 24, t / 60 % 60, t % 60⟩
  behind := fun _ => []

theorem calendar_twoDays : Calendar twoDays where
  valid := fun t => by
    refine ⟨show 2014 < 10 ^ 4 by decide, show 5 < 10 ^ 2 by decide, ?_⟩
    show 4 + (if t < 86400 then 0 else 1) < 10 ^ 2
    split_ifs <;> decide
  between := fun t₁ t₂ t₃ h₁₂ h₂₃ h => by
    refine ⟨rfl, rfl, ?_⟩
    have hday : 4 + (if t₁ < 86400 then 0 else 1) = 4 + (if t₃ < 86400 then 0 else 1) := h.2.2
    show 4 + (if t₁ < 86400 then 0 else 1) = 4 + (if t₂ < 86400 then 0 else 1)
    split_ifs at hday ⊢ <;> omega

/-- An empty directory. -/
def emptyDir : World where
  procs := fun _ => .start
  disk := { names := [], files := fun _ => ⟨[], []⟩, next := 0 }
  now := 0

theorem start_emptyDir : emptyDir.Start := ⟨fun _ => rfl, fun _ he => absurd he List.not_mem_nil⟩

/-- Every call succeeds, at the time `t`. -/
def initAt (t : Nat) : InitMet := ⟨true, fun _ => t, fun _ => true⟩

def metAt (t : Nat) : Met := ⟨t, ⟨t, true, true⟩, t, t, ⟨t, true, true⟩⟩

/-- The world after a call of `log_init` for files of one line, of which `n` are recycled. -/
def World.init (w : World) (p n t : Nat) : World :=
  { w with procs := Function.update w.procs p (logInit twoDays (w.procs p) w.disk .info 1 n (some []) (initAt t)).1 }

/-- The process `p` writes a line at the time `t`. -/
def World.log (w : World) (p t : Nat) : World := w.write twoDays p .error 7 p [0x0A] (metAt t)

theorem Run.init {w₀ w : World} (h : Run twoDays [] True w₀ w) (p n t : Nat) : Run twoDays [] True w₀ (w.init p n t) :=
  h.tail (.init p .info 1 n (initAt t) fun hnot => absurd trivial hnot)

theorem Run.log {w₀ w : World} (h : Run twoDays [] True w₀ w) (p t : Nat) (hnow : w.now ≤ t) :
    Run twoDays [] True w₀ (w.log p t) :=
  h.tail (.write p .error 7 p [0x0A] (metAt t) hnow fun hnot => absurd trivial hnot)

/-- The line of the process 0 stays when the process 1 starts to write, fills the next file and comes back to the
number of the first one. -/
theorem written_stays_shared : ∃ seq ino,
    (nameOf [] .error (twoDays.localtime 80000) seq, ino) ∈
        (((((emptyDir.init 0 2 0).log 0 80000).init 1 2 80100).log 1 80200).log 1 80300).disk.names ∧
      logLine (twoDays.localtime 80000) 7 0 [0x0A] ∈
        ((((((emptyDir.init 0 2 0).log 0 80000).init 1 2 80100).log 1 80200).log 1 80300).disk.files ino).lines := by
  have hbefore : Run twoDays [] True emptyDir (emptyDir.init 0 2 0) := (Run.refl emptyDir).init 0 2 0
  have hafter : Run twoDays [] True ((emptyDir.init 0 2 0).log 0 80000)
      (((((emptyDir.init 0 2 0).log 0 80000).init 1 2 80100).log 1 80200).log 1 80300) :=
    (((Run.refl _).init 1 2 80100).log 1 80200 (by decide)).log 1 80300 (by decide)
  refine written_stays (m := metAt 80000) calendar_twoDays start_emptyDir hbefore (by decide) (by decide +kernel) hafter
    (fun t t' _ _ _ _ hyday => ?_) ⟨rfl, rfl, rfl⟩
  have hday : 123 + (if t < 86400 then 0 else 1) = 123 + (if t' < 86400 then 0 else 1) := hyday
  refine ⟨rfl, rfl, ?_⟩
  show 4 + (if t < 86400 then 0 else 1) = 4 + (if t' < 86400 then 0 else 1)
  omega

end Taomee.Log
