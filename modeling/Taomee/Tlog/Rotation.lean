import Taomee.Tlog.Logger

/-!
# Records and the days of their files

A record goes to a file of its own day, unless the files of an earlier day have used up the quota: the
quota is looked at first, and the counter it is compared with starts again only with a new file.
-/

namespace Taomee.Tlog

variable {ydayOf : Int → Int} {cfg : LoggerCtrlCfg} {fs : FileSystem} {logger : Logger} {r : Record}
  {logfile : Logfile} {now yday : Int}

/-! ## Shifting -/

/-- All calls of the file system succeed. -/
structure FileSystem.Ok (fs : FileSystem) : Prop where
  mkdir : fs.mkdir = true
  timestring : fs.timestring = true
  fd : 0 ≤ fs.fd
  full : fs.full = false

/-- The files of the day of the log file have used up the quota. -/
def QuotaUsed (cfg : LoggerCtrlCfg) (logfile : Logfile) : Prop :=
  cfg.dailyMaxFiles ≠ 0 ∧ cfg.dailyMaxFiles ≤ logfile.dailySeq

/-- A log file is open or not yet there, and it is open when its day has used up the quota. -/
structure FileOk (cfg : LoggerCtrlCfg) (logfile : Logfile) : Prop where
  fd : logfile.fd = -1 ∨ 0 ≤ logfile.fd
  used : QuotaUsed cfg logfile → 0 ≤ logfile.fd

theorem isNeedShiftFile_of_used (h : QuotaUsed cfg logfile) : isNeedShiftFile cfg now yday logfile = false :=
  if_pos h

/-- Without a shift the file is there and of the day, or the quota is used up. -/
theorem current_of_not_needShift (h : isNeedShiftFile cfg now yday logfile = false) :
    QuotaUsed cfg logfile ∨ (logfile.fd ≠ -1 ∧ logfile.tmYday = yday) := by
  unfold isNeedShiftFile at h
  split at h
  · exact .inl ‹_›
  split at h
  · cases h
  rename_i hfd
  split at h
  · cases h
  split at h
  · cases h
  split at h
  · cases h
  · rename_i hday
    exact .inr ⟨hfd, Decidable.not_not.mp hday⟩

theorem initLogfile_tmYday (cfg : LoggerCtrlCfg) (now yday : Int) (logfile : Logfile) :
    (initLogfile cfg now yday logfile).tmYday = yday := by
  by_cases hslice : cfg.timeSliceSecs = 0 <;> by_cases hday : logfile.tmYday = yday <;>
    simp [initLogfile, hslice, hday]

/-- What a shift leaves: a file of the day, or the old one when its day has used up the quota. -/
structure Shifted (cfg : LoggerCtrlCfg) (yday : Int) (logfile logfile' : Logfile) : Prop where
  ok : FileOk cfg logfile'
  fd : 0 ≤ logfile'.fd
  day : logfile'.tmYday = yday ↔ ¬ (QuotaUsed cfg logfile ∧ logfile.tmYday ≠ yday)

theorem shiftLoggerFile_shifted (hfs : fs.Ok) (hf : FileOk cfg logfile) (now yday : Int) :
    ∃ logfile', shiftLoggerFile cfg fs now yday logfile = (logfile', 0) ∧ Shifted cfg yday logfile logfile' := by
  unfold shiftLoggerFile
  by_cases hshift : isNeedShiftFile cfg now yday logfile = false
  · rw [if_pos hshift]
    rcases current_of_not_needShift hshift with hused | ⟨hfd, hday⟩
    · refine ⟨logfile, rfl, hf, hf.used hused, fun hday => ?_, fun hno => ?_⟩
      · exact fun h => h.2 hday
      · exact Decidable.not_not.mp fun hday => hno ⟨hused, hday⟩
    · refine ⟨logfile, rfl, hf, ?_, fun _ h => h.2 hday, fun _ => hday⟩
      rcases hf.fd with h | h
      · exact absurd h hfd
      · exact h
  · have hne : fs.fd ≠ -1 := by
      have := hfs.fd
      omega
    have hnew : createNewLogfile cfg fs now yday logfile = ({ initLogfile cfg now yday logfile with
        fd := fs.fd, dailySeq := (initLogfile cfg now yday logfile).dailySeq + 1 }, 0) := by
      simp [createNewLogfile, hfs.mkdir, hfs.timestring, hne]
    rw [if_neg hshift, hnew]
    refine ⟨_, rfl, ⟨.inr hfs.fd, fun _ => hfs.fd⟩, hfs.fd, fun _ h => ?_, fun _ => initLogfile_tmYday _ _ _ _⟩
    exact hshift (isNeedShiftFile_of_used h.1)

/-! ## One record -/

/-- The logger writes to files, and all of them are as they should be. -/
structure Working (cfg : LoggerCtrlCfg) (logger : Logger) : Prop where
  status : logger.status = .writing
  files : ∀ lvl, FileOk cfg (logger.logfile lvl)

theorem dailyMaxFiles_nonneg {lvl dailyMaxFiles maxOneSize timeSliceSecs : Int} {stopIfDiskfull : Bool}
    (h : initLoggerCtrlCfg lvl dailyMaxFiles maxOneSize stopIfDiskfull timeSliceSecs = some cfg) :
    0 ≤ cfg.dailyMaxFiles := by
  unfold initLoggerCtrlCfg at h
  split at h
  · cases h
  split at h
  · cases h
  split at h
  · cases h
  split at h
  · cases h
  · obtain rfl := Option.some.inj h
    dsimp only
    omega

theorem working_initLogger (h : 0 ≤ cfg.dailyMaxFiles) : Working cfg initLogger := by
  refine ⟨rfl, fun _ => ⟨.inl rfl, fun hused => ?_⟩⟩
  have hle : cfg.dailyMaxFiles ≤ 0 := hused.2
  exact absurd (Int.le_antisymm hle h) hused.1

/-- The record is one that goes to a file. -/
def GoesToFile (cfg : LoggerCtrlCfg) (r : Record) : Prop :=
  r.flag ≠ 0 ∧ (r.lvl : Int) ≤ cfg.logLevel ∧ r.flag &&& 1 ≠ 0

/-- The record goes to a file of its own day. -/
def Written.OnOwnDay (w : Written) : Prop := 0 ≤ w.fd ∧ w.fileYday = w.yday

/-- The files of another day have used up the quota, and none of them may follow. -/
def Masked (ydayOf : Int → Int) (cfg : LoggerCtrlCfg) (logger : Logger) (r : Record) : Prop :=
  QuotaUsed cfg (logger.logfile r.lvl) ∧ (logger.logfile r.lvl).tmYday ≠ ydayOf r.now

theorem Working.setLogfile (h : Working cfg logger) (lvl : Fin 8) (hf : FileOk cfg logfile) :
    Working cfg (logger.setLogfile lvl logfile) := by
  refine ⟨h.status, fun i => ?_⟩
  unfold Logger.setLogfile
  dsimp only
  split
  · exact hf
  · exact h.files i

theorem writeToFile_written (hfs : fs.Ok) (h : Working cfg logger) :
    ∃ logger' w, writeToFile cfg fs logger r = (logger', some w) ∧ Working cfg logger' ∧
      (w.OnOwnDay ↔ ¬ (QuotaUsed cfg (logger.logfile r.lvl) ∧
        (logger.logfile r.lvl).tmYday ≠ logger.tmYday)) := by
  obtain ⟨logfile', hshift, hs⟩ := shiftLoggerFile_shifted hfs (h.files r.lvl) logger.now logger.tmYday
  refine ⟨(logger.setLogfile r.lvl logfile').setLogfile r.lvl
      { logfile' with fileLen := logfile'.fileLen + r.totLen },
    ⟨logfile'.fd, logfile'.tmYday, logger.tmYday⟩, ?_, ?_, ?_⟩
  · unfold writeToFile
    rw [hshift]
    simp [hfs.full, Logger.setLogfile]
  · exact (h.setLogfile r.lvl hs.ok).setLogfile r.lvl ⟨hs.ok.fd, hs.ok.used⟩
  · unfold Written.OnOwnDay
    rw [and_iff_right hs.fd]
    exact hs.day

/-- A record that goes to a file goes to one of its own day, except when the quota masks the date. -/
theorem writeToLogger_written (hfs : fs.Ok) (h : Working cfg logger) (hr : GoesToFile cfg r) :
    ∃ logger' w, writeToLogger ydayOf cfg fs logger r = (logger', some w) ∧ Working cfg logger' ∧
      (w.OnOwnDay ↔ ¬ Masked ydayOf cfg logger r) := by
  obtain ⟨hflag, hlvl, hfile⟩ := hr
  have hnotinit : logger.status ≠ .notinit := by
    rw [h.status]
    decide
  have hready : Working cfg { logger with now := r.now, tmYday := ydayOf r.now } := ⟨h.status, h.files⟩
  obtain ⟨logger', w, hwrite, h', hday⟩ := writeToFile_written (r := r) hfs hready
  refine ⟨logger', w, ?_, h', hday⟩
  unfold writeToLogger
  rw [if_neg hflag, if_neg hnotinit, if_neg (Int.not_lt.mpr hlvl)]
  dsimp only
  rw [if_neg (not_not_intro h.status), if_pos hfile]
  exact hwrite

theorem writeToLogger_ignored (h : Working cfg logger) (hr : ¬ GoesToFile cfg r) :
    ∃ logger', writeToLogger ydayOf cfg fs logger r = (logger', none) ∧ Working cfg logger' ∧
      logger'.logfile = logger.logfile := by
  unfold GoesToFile at hr
  unfold writeToLogger
  by_cases hflag : r.flag = 0
  · exact ⟨logger, if_pos hflag, h, rfl⟩
  · rw [if_neg hflag]
    split
    · exact ⟨logger, rfl, h, rfl⟩
    split
    · exact ⟨logger, rfl, h, rfl⟩
    · rename_i hlvl
      have hfile : ¬ r.flag &&& 1 ≠ 0 := fun hfile => hr ⟨hflag, Int.not_lt.mp hlvl, hfile⟩
      dsimp only
      rw [if_neg (not_not_intro h.status), if_neg hfile]
      exact ⟨_, rfl, ⟨h.status, h.files⟩, rfl⟩

/-! ## Runs -/

/-- No record that goes to a file comes when the quota masks the date. -/
def NeverMasked (ydayOf : Int → Int) (cfg : LoggerCtrlCfg) : Logger → List (Record × FileSystem) → Prop
  | _, [] => True
  | logger, (r, fs) :: rest =>
      (GoesToFile cfg r → ¬ Masked ydayOf cfg logger r) ∧
        NeverMasked ydayOf cfg (writeToLogger ydayOf cfg fs logger r).1 rest

theorem Working.onOwnDay_iff {rs : List (Record × FileSystem)} (hrs : ∀ p ∈ rs, p.2.Ok) : ∀ {logger : Logger},
    Working cfg logger → ((∀ w ∈ (writeAll ydayOf cfg logger rs).2, w.OnOwnDay) ↔
      NeverMasked ydayOf cfg logger rs) := by
  induction rs with
  | nil =>
      intro logger _
      simp [writeAll, NeverMasked]
  | cons p rs ih =>
      intro logger h
      obtain ⟨r, fs⟩ := p
      have hfs : fs.Ok := hrs (r, fs) List.mem_cons_self
      have hrest : ∀ p ∈ rs, p.2.Ok := fun p hp => hrs p (List.mem_cons_of_mem _ hp)
      unfold writeAll NeverMasked
      by_cases hr : GoesToFile cfg r
      · obtain ⟨logger', w, hstep, h', hday⟩ := @writeToLogger_written ydayOf _ _ _ _ hfs h hr
        rw [hstep]
        simp only [Option.toList_some, List.singleton_append, List.forall_mem_cons, ih hrest h', hday, hr,
          true_implies]
      · obtain ⟨logger', hstep, h', -⟩ := @writeToLogger_ignored ydayOf _ fs _ _ h hr
        rw [hstep]
        simp only [Option.toList_none, List.nil_append, ih hrest h', hr, false_implies, true_and]

theorem neverMasked_of_no_quota (hcfg : cfg.dailyMaxFiles = 0) : ∀ (logger : Logger) (rs : List (Record × FileSystem)),
    NeverMasked ydayOf cfg logger rs
  | _, [] => trivial
  | _, (_, _) :: rs => ⟨fun _ hmasked => hmasked.1.1 hcfg, neverMasked_of_no_quota hcfg _ rs⟩

/-- Every record of a run goes to a file of its own day if and only if no record comes when the quota
of another day is used up. -/
theorem writeAll_onOwnDay_iff (ydayOf : Int → Int) (lvl dailyMaxFiles maxOneSize : Int)
    (stopIfDiskfull : Bool) (timeSliceSecs : Int) (cfg : LoggerCtrlCfg)
    (hcfg : initLoggerCtrlCfg lvl dailyMaxFiles maxOneSize stopIfDiskfull timeSliceSecs = some cfg)
    (rs : List (Record × FileSystem)) (hrs : ∀ p ∈ rs, p.2.Ok) :
    (∀ w ∈ (writeAll ydayOf cfg initLogger rs).2, w.OnOwnDay) ↔ NeverMasked ydayOf cfg initLogger rs :=
  (working_initLogger (dailyMaxFiles_nonneg hcfg)).onOwnDay_iff hrs

/-- The day of the year, in a year of which only the seconds count. -/
def utcYday (now : Int) : Int := now / 86400

/-- Two records a day apart with a quota of one file: the second one goes to the file of the first. -/
def twoDays : List (Record × FileSystem) :=
  [(⟨0, 1, 0, 20⟩, ⟨true, true, 3, false⟩), (⟨0, 1, 86400, 20⟩, ⟨true, true, 4, false⟩)]

theorem twoDays_ok : ∀ p ∈ twoDays, p.2.Ok := by
  unfold twoDays
  simp only [List.mem_cons, List.not_mem_nil, or_false, forall_eq_or_imp, forall_eq]
  exact ⟨⟨rfl, rfl, by decide, rfl⟩, rfl, rfl, by decide, rfl⟩

theorem writeAll_onOwnDay_iff_twoDays :
    (∀ w ∈ (writeAll utcYday ⟨7, 2, 10, true, 0⟩ initLogger twoDays).2, w.OnOwnDay) ↔
      NeverMasked utcYday ⟨7, 2, 10, true, 0⟩ initLogger twoDays :=
  writeAll_onOwnDay_iff utcYday 7 2 10 true 0 _ rfl twoDays twoDays_ok

theorem not_writeAll_onOwnDay :
    ¬ ∀ (ydayOf : Int → Int) (lvl dailyMaxFiles maxOneSize : Int) (stopIfDiskfull : Bool)
      (timeSliceSecs : Int) (cfg : LoggerCtrlCfg),
      initLoggerCtrlCfg lvl dailyMaxFiles maxOneSize stopIfDiskfull timeSliceSecs = some cfg →
      ∀ rs : List (Record × FileSystem), (∀ p ∈ rs, p.2.Ok) →
        rs.Pairwise (fun p q => p.1.now ≤ q.1.now) →
        ∀ w ∈ (writeAll ydayOf cfg initLogger rs).2, w.OnOwnDay := by
  intro h
  have hall := h utcYday 7 1 10 true 0 ⟨7, 1, 10, true, 0⟩ rfl twoDays twoDays_ok (by simp [twoDays])
  have hmem : (⟨3, 0, 1⟩ : Written) ∈ (writeAll utcYday ⟨7, 1, 10, true, 0⟩ initLogger twoDays).2 := by
    decide
  exact absurd (hall _ hmem).2 (by decide)

end Taomee.Tlog
