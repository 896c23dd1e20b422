import Taomee.Lib.CInt

/-!
# Log files (tlog/tlog.c)

The configuration, the state of the log file of each level and what writing a record does to them.
Names and contents of files are left out; what the file system answers is part of the input. Sending
a record over the network changes none of this.
-/

namespace Taomee.Tlog

def minOneLogSize : Int := 10
def maxOneLogSize : Int := 2000
def dailyMaxFilesLimit : Int := 100000
def checkDiskfullDur : Int := 10

/-- `tlog_lvl_max`. -/
def tlogLvlMax : Int := 8

/-! ## Data -/

/-- `logger_ctrl_cfg_t`. -/
structure LoggerCtrlCfg where
  logLevel : Int
  dailyMaxFiles : Int
  maxOneSize : Int
  stopIfDiskfull : Bool
  timeSliceSecs : Int

/-- `logfile_t`: the counters of one level. -/
structure Logfile where
  fd : Int
  dailySeq : Int
  timeSliceSeq : Int
  tmYday : Int
  fileLen : Int

/-- `enum logger_status_t`. -/
inductive LoggerStatus where
  | notinit
  | writing
  | stop
deriving DecidableEq

/-- `logger_t`, with the current time and its `tm_yday`. -/
structure Logger where
  status : LoggerStatus
  lastCheckDiskfullTime : Int
  now : Int
  tmYday : Int
  logfile : Fin 8 → Logfile

/-- What the file system answers while one record is written. -/
structure FileSystem where
  /-- `tlog_mkdir_with_parents` succeeds. -/
  mkdir : Bool
  /-- `gen_timestring` succeeds. -/
  timestring : Bool
  /-- What `open` returns. -/
  fd : Int
  /-- `write` fails with `ENOSPC`. -/
  full : Bool

/-! ## Setting up -/

/-- `init_logger_ctrl_cfg`. -/
def initLoggerCtrlCfg (lvl dailyMaxFiles maxOneSize : Int) (stopIfDiskfull : Bool) (timeSliceSecs : Int) :
    Option LoggerCtrlCfg :=
  if lvl < 0 ∨ lvl ≥ tlogLvlMax then none
  else if dailyMaxFiles < 0 ∨ dailyMaxFiles > dailyMaxFilesLimit then none
  else if maxOneSize < minOneLogSize ∨ maxOneSize > maxOneLogSize then none
  else if timeSliceSecs < 0 then none
  else some { logLevel := lvl, dailyMaxFiles, maxOneSize, stopIfDiskfull, timeSliceSecs }

/-- The logger as `init_logger` leaves it. -/
def initLogger : Logger :=
  { status := .writing
    lastCheckDiskfullTime := 0
    now := 0
    tmYday := 0
    logfile := fun _ => { fd := -1, dailySeq := 0, timeSliceSeq := 0, tmYday := 0, fileLen := 0 } }

/-! ## Rotation -/

/-- `now / ctrl_cfg->time_slice_secs` as an `int32_t`. -/
def timeSlice (cfg : LoggerCtrlCfg) (now : Int) : Int := toI32 (now.tdiv cfg.timeSliceSecs)

/-- `init_logfile`. -/
def initLogfile (cfg : LoggerCtrlCfg) (now yday : Int) (logfile : Logfile) : Logfile :=
  let logfile :=
    if cfg.timeSliceSecs ≠ 0 then { logfile with timeSliceSeq := timeSlice cfg now } else logfile
  let logfile := if logfile.tmYday ≠ yday then { logfile with dailySeq := 0, tmYday := yday } else logfile
  { logfile with fileLen := 0, fd := -1 }

/-- `is_need_shift_file`. -/
def isNeedShiftFile (cfg : LoggerCtrlCfg) (now yday : Int) (logfile : Logfile) : Bool :=
  if cfg.dailyMaxFiles ≠ 0 ∧ logfile.dailySeq ≥ cfg.dailyMaxFiles then false
  else if logfile.fd = -1 then true
  else if cfg.timeSliceSecs ≠ 0 ∧ timeSlice cfg now ≠ logfile.timeSliceSeq then true
  else if cfg.maxOneSize ≠ 0 ∧ logfile.fileLen / 2 ^ 20 ≥ cfg.maxOneSize then true
  else if logfile.tmYday ≠ yday then true
  else false

/-- `create_new_logfile`: the log file and the return value. -/
def createNewLogfile (cfg : LoggerCtrlCfg) (fs : FileSystem) (now yday : Int) (logfile : Logfile) :
    Logfile × Int :=
  if fs.mkdir = false then (logfile, -1)
  else
    let logfile := initLogfile cfg now yday logfile
    if fs.timestring = false then (logfile, -1)
    else if fs.fd = -1 then (logfile, -1)
    else ({ logfile with fd := fs.fd, dailySeq := logfile.dailySeq + 1 }, 0)

/-- `shift_logger_file`. -/
def shiftLoggerFile (cfg : LoggerCtrlCfg) (fs : FileSystem) (now yday : Int) (logfile : Logfile) :
    Logfile × Int :=
  if isNeedShiftFile cfg now yday logfile = false then (logfile, 0)
  else createNewLogfile cfg fs now yday logfile

/-! ## Writing -/

/-- A call of `write_to_logger`: its level and flag, the time and the day of the year when it is
made, and the length of the line that it formats. -/
structure Record where
  lvl : Fin 8
  flag : UInt32
  now : Int
  totLen : Nat

/-- A line that was written: the file's descriptor and day, and the day of the record. -/
structure Written where
  fd : Int
  fileYday : Int
  yday : Int
deriving DecidableEq

def Logger.setLogfile (logger : Logger) (lvl : Fin 8) (logfile : Logfile) : Logger :=
  { logger with logfile := fun i => if i = lvl then logfile else logger.logfile i }

/-- The part of `write_to_logger` under `flag & logger_flag_file`. -/
def writeToFile (cfg : LoggerCtrlCfg) (fs : FileSystem) (logger : Logger) (r : Record) :
    Logger × Option Written :=
  match shiftLoggerFile cfg fs logger.now logger.tmYday (logger.logfile r.lvl) with
  | (logfile, ret) =>
      let logger := logger.setLogfile r.lvl logfile
      if ret < 0 then (logger, none)
      else if fs.full = true ∧ cfg.stopIfDiskfull = true then ({ logger with status := .stop }, none)
      else
        (logger.setLogfile r.lvl { logfile with fileLen := logfile.fileLen + r.totLen },
          if fs.full = true then none else some ⟨logfile.fd, logfile.tmYday, logger.tmYday⟩)

/-- `write_to_logger`, up to `try_udp`. The day of the year of a time is what `localtime_r` says. -/
def writeToLogger (ydayOf : Int → Int) (cfg : LoggerCtrlCfg) (fs : FileSystem) (logger : Logger)
    (r : Record) : Logger × Option Written :=
  if r.flag = 0 then (logger, none)
  else if logger.status = .notinit then (logger, none)
  else if (r.lvl : Int) > cfg.logLevel then (logger, none)
  else
    let logger := { logger with now := r.now, tmYday := ydayOf r.now }
    if logger.status ≠ .writing then
      if logger.status = .stop ∧ r.now - logger.lastCheckDiskfullTime ≥ checkDiskfullDur then
        ({ logger with status := .writing, lastCheckDiskfullTime := r.now }, none)
      else (logger, none)
    else if r.flag &&& 1 ≠ 0 then writeToFile cfg fs logger r
    else (logger, none)

/-- The records one after the other, each with what the file system answers: the logger at the end
and the lines written. -/
def writeAll (ydayOf : Int → Int) (cfg : LoggerCtrlCfg) : Logger → List (Record × FileSystem) →
    Logger × List Written
  | logger, [] => (logger, [])
  | logger, (r, fs) :: rest =>
      let (logger, written) := writeToLogger ydayOf cfg fs logger r
      let (logger, more) := writeAll ydayOf cfg logger rest
      (logger, written.toList ++ more)

end Taomee.Tlog
