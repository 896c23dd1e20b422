import Mathlib.Data.List.Basic
import Mathlib.Logic.Function.Basic
import Taomee.Lib.Decimal

/-!
# Log files (log.c)

The globals of one process, and the log directory that processes share. Calls of the system that may fail
or take time are given with each call of the interface: what `time` returned, and which calls succeeded.
What is printed to the terminal is left out.
-/

namespace Taomee.Log

/-! ## The system -/

/-- `struct tm`, with the year as it is written and the month from 1. -/
structure Tm where
  year : Nat
  mon : Nat
  mday : Nat
  yday : Nat
  hour : Nat
  min : Nat
  sec : Nat

/-- `localtime_r`, and the bytes that lie behind a file name in memory. -/
structure Platform where
  localtime : Nat → Tm
  behind : List UInt8 → List UInt8

abbrev Name := List UInt8

/-- What one `write` appends. -/
abbrev Line := List UInt8

/-- A file, with the name that it was created under. -/
structure File where
  name : Name
  lines : List Line

/-- The directory, in the order of `readdir`, and the files by their number. -/
structure Disk where
  names : List (Name × Nat)
  files : Nat → File
  next : Nat

namespace Disk

/-- `open(name, O_WRONLY | O_CREAT | O_APPEND)` -/
def openAppend (disk : Disk) (name : Name) : Nat × Disk :=
  match disk.names.find? fun e => e.1 = name with
  | some e => (e.2, disk)
  | none => (disk.next, {
      names := disk.names ++ [(name, disk.next)]
      files := Function.update disk.files disk.next ⟨name, []⟩
      next := disk.next + 1 })

/-- `remove(name)` -/
def remove (disk : Disk) (name : Name) : Disk := { disk with names := disk.names.filter fun e => e.1 ≠ name }

/-- `access(name, F_OK)` -/
def exists? (disk : Disk) (name : Name) : Bool := disk.names.any fun e => e.1 = name

/-- `lseek(fd, 0, SEEK_END)` -/
def size (disk : Disk) (ino : Nat) : Nat := ((disk.files ino).lines.map List.length).sum

/-- `write(fd, line)` -/
def append (disk : Disk) (ino : Nat) (line : Line) : Disk :=
  { disk with files := Function.update disk.files ino { disk.files ino with lines := (disk.files ino).lines ++ [line] } }

end Disk

/-! ## The globals -/

/-- `enum log_lvl` -/
inductive LogLvl where
  | emerg | alert | crit | error | warning | notice | info | debug | trace
  deriving DecidableEq

/-- The levels from `log_lvl_emerg` to `log_lvl_trace`. -/
def logLvls : List LogLvl := [.emerg, .alert, .crit, .error, .warning, .notice, .info, .debug, .trace]

/-- `lognames` -/
def lognames : LogLvl → List UInt8
  | .emerg => [0x65, 0x6D, 0x65, 0x72, 0x67]
  | .alert => [0x61, 0x6C, 0x65, 0x72, 0x74]
  | .crit => [0x63, 0x72, 0x69, 0x74]
  | .error => [0x65, 0x72, 0x72, 0x6F, 0x72]
  | .warning => [0x77, 0x61, 0x72, 0x6E]
  | .notice => [0x6E, 0x6F, 0x74, 0x69, 0x63, 0x65]
  | .info => [0x69, 0x6E, 0x66, 0x6F]
  | .debug => [0x64, 0x65, 0x62, 0x75, 0x67]
  | .trace => [0x74, 0x72, 0x61, 0x63, 0x65]

/-- The value of a level. -/
def LogLvl.toNat : LogLvl → Nat
  | .emerg => 0
  | .alert => 1
  | .crit => 2
  | .error => 3
  | .warning => 4
  | .notice => 5
  | .info => 6
  | .debug => 7
  | .trace => 8

/-- `MAX_LOG_CNT` -/
def maxLogCnt : Nat := 10000000

/-- `log_buf_sz` -/
def logBufSz : Nat := 8192

/-- `struct fds_t`; an `opfd` of -1 is `none`. -/
structure Fds where
  seq : Int
  opfd : Option Nat
  day : Nat
  baseFilename : Name
  curDaySeqCount : Nat

/-- The globals, of `g_log_dest` whether lines go to files. -/
structure Globals where
  hasInit : Bool
  logLevel : LogLvl
  destFile : Bool
  maxLogFiles : Nat
  configMaxLogFiles : Nat
  logSize : Nat
  logPre : Name
  logtimeInterval : Nat
  fdsInfo : LogLvl → Fds

/-- `fds_info[lvl] = f(fds_info[lvl])` -/
def Globals.setFds (g : Globals) (lvl : LogLvl) (f : Fds → Fds) : Globals :=
  { g with fdsInfo := Function.update g.fdsInfo lvl (f (g.fdsInfo lvl)) }

/-- `max_log_files = n` -/
def Globals.setMax (g : Globals) (n : Nat) : Globals := { g with maxLogFiles := n }

/-- The globals when a process starts, and after `log_fini`. -/
def Globals.start : Globals where
  hasInit := false
  logLevel := .debug
  destFile := false
  maxLogFiles := 0
  configMaxLogFiles := 0
  logSize := 0
  logPre := []
  logtimeInterval := 0
  fdsInfo := fun _ => { seq := 0, opfd := none, day := 0, baseFilename := [], curDaySeqCount := 0 }

/-! ## File names -/

/-- `printf("%07d", seq)` -/
def seqText (seq : Int) : List UInt8 := if seq < 0 then 0x2D :: decimal 6 seq.natAbs else decimal 7 seq.toNat

/-- `printf("%04d%02d%02d", ...)` -/
def dateText (tm : Tm) : List UInt8 := decimal 4 tm.year ++ decimal 2 tm.mon ++ decimal 2 tm.mday

/-- `log_file_name(lvl, seq, file_name, tm)` -/
def logFileName (g : Globals) (lvl : LogLvl) (seq : Int) (tm : Tm) : Name :=
  (g.fdsInfo lvl).baseFilename ++ dateText tm ++ seqText seq

/-- `log_file_path(lvl, seq, file_name, tm)` without the directory, where `time` returns `now`. -/
def logFilePath (pf : Platform) (g : Globals) (lvl : LogLvl) (seq : Int) (tm : Tm) (now : Nat) : Name :=
  if g.logtimeInterval ≠ 0 then
    let tmpTm := pf.localtime (now / g.logtimeInterval * g.logtimeInterval)
    (g.fdsInfo lvl).baseFilename ++ dateText tmpTm ++ decimal 2 tmpTm.hour ++ decimal 2 tmpTm.min
  else logFileName g lvl seq tm

/-- `get_logfile_seqno(filename, loglvl)` -/
def getLogfileSeqno (pf : Platform) (g : Globals) (filename : Name) (lvl : LogLvl) : Int :=
  atoi ((filename ++ 0 :: pf.behind filename).drop ((g.fdsInfo lvl).baseFilename.length + 8) |>.takeWhile (· ≠ 0))

/-- `strncmp(filename, base_filename, base_filename_len) == 0` -/
def hasBase (g : Globals) (lvl : LogLvl) (filename : Name) : Bool := (g.fdsInfo lvl).baseFilename.isPrefixOf filename

/-- `rm_files_by_seqno(loglvl, seqno, tm)`, where `opendir` succeeds or not. -/
def rmFilesBySeqno (pf : Platform) (g : Globals) (disk : Disk) (lvl : LogLvl) (seqno : Int) (tm : Tm) (opendir : Bool) :
    Disk :=
  if !opendir then disk
  else
    let filename := logFileName g lvl seqno tm
    match disk.names.find? fun e => seqno = getLogfileSeqno pf g e.1 lvl ∧ hasBase g lvl e.1 ∧ filename ≠ e.1 with
    | some e => disk.remove e.1
    | none => disk

/-! ## The number of the first file -/

/-- The loop of `get_log_seq_nonrecycle`, with the numbers that are left. -/
def nonrecycleLoop (pf : Platform) (g : Globals) (disk : Disk) (lvl : LogLvl) (tm : Tm) (now : Nat) : Nat → Nat → Nat
  | 0, seq => seq
  | left + 1, seq =>
      if disk.exists? (logFilePath pf g lvl seq tm now) then nonrecycleLoop pf g disk lvl tm now left (seq + 1)
      else seq

/-- `get_log_seq_nonrecycle(lvl)` -/
def getLogSeqNonrecycle (pf : Platform) (g : Globals) (disk : Disk) (lvl : LogLvl) (now : Nat) : Int :=
  let seq := nonrecycleLoop pf g disk lvl (pf.localtime now) now maxLogCnt 0
  if seq ≠ 0 then (seq : Int) - 1 else 0

/-- The loop of `get_log_seq_recycle`: the last of the level's names in the order of `strcmp`. -/
def lastName (g : Globals) (lvl : LogLvl) (names : List (Name × Nat)) : Name :=
  names.foldl (fun last e => if hasBase g lvl e.1 && strcmpPos e.1 last then e.1 else last) []

/-- The name from which `get_log_seq_recycle` goes on. -/
def resumeName (g : Globals) (lvl : LogLvl) (names : List (Name × Nat)) (tm : Tm) : Name :=
  match lastName g lvl names with
  | [] => logFileName g lvl 0 tm
  | name => name

/-- `get_log_seq_recycle(lvl)`, where `opendir` succeeds or not. -/
def getLogSeqRecycle (pf : Platform) (g : Globals) (disk : Disk) (lvl : LogLvl) (now : Nat) (opendir : Bool) : Int :=
  if !opendir then -1
  else
    let tm := pf.localtime now
    let fileName := resumeName g lvl disk.names tm
    let seqno := getLogfileSeqno pf g fileName lvl
    let date := (fileName ++ 0 :: pf.behind fileName).drop (g.fdsInfo lvl).baseFilename.length
    let seqno := if dateText tm ≠ date.take 8 then seqno + 1 else seqno
    seqno.tmod g.maxLogFiles

/-- `request_log_seq(lvl)` -/
def requestLogSeq (pf : Platform) (g : Globals) (disk : Disk) (lvl : LogLvl) (now : Nat) (opendir : Bool) : Int :=
  if g.maxLogFiles ≠ 0 then getLogSeqRecycle pf g disk lvl now opendir else getLogSeqNonrecycle pf g disk lvl now

/-- `get_log_time()` -/
def getLogTime (g : Globals) (now : Nat) : Int := (now / g.logtimeInterval : Nat)

/-! ## Opening and shifting -/

/-- Which system calls of one `open_fd` succeed, and what `time` returns in it. -/
structure Opening where
  time : Nat
  opens : Bool
  opendir : Bool

/-- The part of `open_fd` that counts the files of the day. On another day recycling is on again. -/
def countDay (g : Globals) (lvl : LogLvl) (tm : Tm) : Globals :=
  if (g.fdsInfo lvl).day ≠ tm.yday then
    (g.setFds lvl fun fds => { fds with curDaySeqCount := 1, day := tm.yday }).setMax g.configMaxLogFiles
  else g.setFds lvl fun fds => { fds with curDaySeqCount := fds.curDaySeqCount + 1 }

/-- The part of `open_fd` that gives up recycling when the files of the day are used up. -/
def giveUpRecycle (g : Globals) (lvl : LogLvl) : Globals :=
  if g.maxLogFiles ≠ 0 ∧ (g.fdsInfo lvl).curDaySeqCount > g.maxLogFiles then
    (g.setFds lvl fun fds => { fds with seq := g.maxLogFiles }).setMax 0
  else g

/-- The globals when `open_fd` has opened the file `ino`. -/
def countOpened (g : Globals) (lvl : LogLvl) (tm : Tm) (ino : Nat) : Globals :=
  giveUpRecycle (countDay (g.setFds lvl fun fds => { fds with opfd := some ino }) lvl tm) lvl

/-- `open_fd(lvl, tm)` -/
def openFd (pf : Platform) (g : Globals) (disk : Disk) (lvl : LogLvl) (tm : Tm) (o : Opening) : Globals × Disk :=
  let fileName := logFilePath pf g lvl (g.fdsInfo lvl).seq tm o.time
  if !o.opens then (g.setFds lvl fun fds => { fds with opfd := none }, disk)
  else
    let (ino, disk) := disk.openAppend fileName
    let g := countOpened g lvl tm ino
    if g.maxLogFiles ≠ 0 then (g, rmFilesBySeqno pf g disk lvl (g.fdsInfo lvl).seq tm o.opendir) else (g, disk)

/-- What a call of `write_log` meets: the time at its start, what `get_log_time` reads, and what is met by
`open_fd` in its two places. -/
structure Met where
  now : Nat
  first : Opening
  check : Nat
  shift : Nat
  second : Opening

/-- The file of `lvl` is in order: `shift_fd` returns 0 early. -/
def upToDate (g : Globals) (disk : Disk) (lvl : LogLvl) (tm : Tm) (check ino : Nat) : Bool :=
  if g.logtimeInterval ≠ 0 then (g.fdsInfo lvl).seq = getLogTime g check
  else disk.size ino < g.logSize && (g.fdsInfo lvl).day = tm.yday

/-- The next `seq` in `shift_fd`. -/
def nextSeq (g : Globals) (lvl : LogLvl) (tm : Tm) (shift : Nat) : Int :=
  if g.logtimeInterval ≠ 0 then getLogTime g shift
  else if g.maxLogFiles ≠ 0 then ((g.fdsInfo lvl).seq + 1).tmod g.maxLogFiles
  else if (g.fdsInfo lvl).day ≠ tm.yday then 0
  else ((g.fdsInfo lvl).seq + 1).tmod maxLogCnt

/-- `shift_fd(lvl, tm)` from where a file is open. -/
def shiftOpened (pf : Platform) (g : Globals) (disk : Disk) (lvl : LogLvl) (tm : Tm) (m : Met) (ino : Nat) :
    Globals × Disk :=
  if upToDate g disk lvl tm m.check ino then (g, disk)
  else openFd pf (g.setFds lvl fun fds => { fds with seq := nextSeq g lvl tm m.shift }) disk lvl tm m.second

/-- `shift_fd(lvl, tm)`; it has failed when there is no open file afterwards. -/
def shiftFd (pf : Platform) (g : Globals) (disk : Disk) (lvl : LogLvl) (tm : Tm) (m : Met) : Globals × Disk :=
  match (g.fdsInfo lvl).opfd with
  | some ino => shiftOpened pf g disk lvl tm m ino
  | none =>
      let (g, disk) := openFd pf g disk lvl tm m.first
      match (g.fdsInfo lvl).opfd with
      | some ino => shiftOpened pf g disk lvl tm m ino
      | none => (g, disk)

/-- The line that `write_log` makes of the formatted text. -/
def logLine (tm : Tm) (key pid : Nat) (text : List UInt8) : Line :=
  let head := [0x5B] ++ decimal 2 tm.hour ++ [0x3A] ++ decimal 2 tm.min ++ [0x3A] ++ decimal 2 tm.sec ++ [0x5D, 0x20] ++
    decimal 1 key ++ [0x20, 0x5B] ++ decimal 5 pid ++ [0x5D]
  if text.length ≥ logBufSz - head.length then head ++ text.take (logBufSz - head.length - 1) ++ [0x0A] else head ++ text

/-- `write_log(lvl, key, fmt, ...)`; the last component is whether `write` is reached. -/
def writeLog (pf : Platform) (g : Globals) (disk : Disk) (lvl : LogLvl) (key pid : Nat) (text : List UInt8) (m : Met) :
    Globals × Disk × Bool :=
  if lvl.toNat > g.logLevel.toNat then (g, disk, false)
  else if !g.destFile then (g, disk, false)
  else
    let tm := pf.localtime m.now
    let (g, disk) := shiftFd pf g disk lvl tm m
    match (g.fdsInfo lvl).opfd with
    | none => (g, disk, false)
    | some ino => (g, disk.append ino (logLine tm key pid text), true)

/-! ## Initialisation -/

/-- What a call of `log_init` meets: whether the directory may be written, and for each level what `time`
returns and whether `opendir` succeeds. -/
structure InitMet where
  writable : Bool
  time : LogLvl → Nat
  opendir : LogLvl → Bool

/-- What the loop of `log_init` sets for a level. -/
def initLevel (pf : Platform) (g : Globals) (disk : Disk) (m : InitMet) (lvl : LogLvl) : Globals :=
  let g := g.setFds lvl fun fds => { fds with baseFilename := g.logPre ++ lognames lvl, opfd := none }
  let seq := if g.logtimeInterval ≠ 0 then getLogTime g (m.time lvl)
    else requestLogSeq pf g disk lvl (m.time lvl) (m.opendir lvl)
  g.setFds lvl fun fds => { fds with seq := seq }

/-- The loop of `log_init`: the globals, and whether it went through. -/
def initLoop (pf : Platform) (disk : Disk) (m : InitMet) : List LogLvl → Globals → Globals × Bool
  | [], g => (g, true)
  | lvl :: lvls, g =>
      let g := initLevel pf g disk m lvl
      if (g.fdsInfo lvl).seq < 0 then (g, false) else initLoop pf disk m lvls g

/-- What `log_init` sets before it checks its arguments. -/
def Globals.configure (g : Globals) (lvl : LogLvl) (size maxfiles : Nat) : Globals :=
  { g with logLevel := lvl, logSize := size, configMaxLogFiles := maxfiles, maxLogFiles := maxfiles }

/-- `if (pre_name != NULL) strncpy(log_pre, pre_name, sizeof(log_pre) - 1)` -/
def Globals.setPre (g : Globals) (preName : Option Name) : Globals :=
  match preName with
  | none => g
  | some pre => { g with logPre := pre.take 31 }

/-- `log_init(dir, lvl, size, maxfiles, pre_name)` for a directory, with a level that exists: the globals and
the return value. -/
def logInit (pf : Platform) (g : Globals) (disk : Disk) (lvl : LogLvl) (size maxfiles : Nat) (preName : Option Name)
    (m : InitMet) : Globals × Int :=
  let g := g.configure lvl size maxfiles
  if size > 2 ^ 31 then (g, -1)
  else if !m.writable then (g, -1)
  else
    let (g, ok) := initLoop pf disk m logLvls (g.setPre preName)
    if !ok then (g, -1) else ({ g with destFile := true, hasInit := true }, 0)

/-- `log_init_t(dir, lvl, pre_name, logtime)` -/
def logInitT (pf : Platform) (g : Globals) (disk : Disk) (lvl : LogLvl) (preName : Option Name) (logtime : Nat)
    (m : InitMet) : Globals × Int :=
  logInit pf { g with logtimeInterval := logtime * 60 } disk lvl 0 0 preName m

/-- `log_fini()`; the files are closed. -/
def logFini : Globals := Globals.start

/-- `set_log_dest(dest)` -/
def setLogDest (g : Globals) (destFile : Bool) : Globals := { g with destFile := destFile }

end Taomee.Log
