import Taomee.Lib.Words
import Taomee.Lib.Bytes
import Taomee.Dirty.Utf8Punc
import Taomee.Dirty.Acsm
import Taomee.Dirty.Lemmas.Trie
import Taomee.Dirty.Lemmas.AddPattern
import Taomee.Dirty.Lemmas.Build
import Taomee.Dirty.Lemmas.Bfs
import Taomee.Dirty.Lemmas.Normalise
import Taomee.Dirty.Lemmas.Compile
import Taomee.Dirty.Search
import Taomee.Lib.CInt
import Taomee.Lib.CString
import Taomee.Lib.Utf8
import Taomee.Shmq.Queue
import Taomee.Shmq.Lemmas.Layout
import Taomee.Shmq.Lemmas.Processes
import Taomee.Shmq.Fifo
import Taomee.Config.Config
import Taomee.Config.Lemmas.Store
import Taomee.Config.Lemmas.Parse
import Taomee.Config.Reload
import Taomee.Dirty.Replace
import Taomee.Dirty.Lemmas.Masked
import Taomee.Dirty.Lemmas.Walk
import Taomee.Dirty.Agree
import Taomee.Dirty.Lemmas.Tokens
import Taomee.Dirty.Lemmas.Image
import Taomee.Dirty.Lemmas.Stars
import Taomee.Dirty.Lemmas.RoundFull
import Taomee.Dirty.Lemmas.RoundOther
import Taomee.Dirty.Lemmas.RoundAlpha
import Taomee.Dirty.Lemmas.Matcher
import Taomee.Dirty.WellFormed
import Taomee.Lib.DList
import Taomee.Timer.Timer
import Taomee.Timer.Lemmas.Lists
import Taomee.Timer.Lemmas.Steps
import Taomee.Timer.Lemmas.History
import Taomee.Timer.Lemmas.Minima
import Taomee.Timer.Lemmas.Loop
import Taomee.Timer.Lemmas.Sort
import Taomee.Timer.Lemmas.Runs
import Taomee.Lib.Fuel
import Taomee.Timer.Lemmas.Ends
import Taomee.Dirty.Automaton
import Taomee.Lib.Probing
import Taomee.Attr.AttrApi
import Taomee.Attr.Refine
import Taomee.Lib.Feistel
import Taomee.Crypt.Tables
import Taomee.Crypt.Qdes
import Taomee.Crypt.Lemmas.Block
import Taomee.Crypt.RoundTrip
import Taomee.Crypt.Session
import Taomee.Tlog.Logger
import Taomee.Tlog.Rotation
import Taomee.Lib.ByteOrder
import Taomee.Tlog.Netutils
import Taomee.Tlog.Lemmas.Packet
import Taomee.Tlog.OwnBytes
import Taomee.Lib.Inet
import Taomee.Tlog.CtrlTlog
import Taomee.Tlog.Agreement
import Taomee.Tlog.Handoff
import Taomee.Tlog.LastAddress
import Taomee.Dirty.TmDirty
import Taomee.Dirty.Lemmas.Load
import Taomee.Dirty.Attached
import Taomee.Dirty.Update
import Taomee.Dirty.Lemmas.Packets
import Taomee.Dirty.Lemmas.Frame
import Taomee.Dirty.Lemmas.Cycle
import Taomee.Dirty.Startup
import Taomee.Dirty.Filters
import Taomee.Dirty.Lemmas.Reach
import Taomee.Dirty.Verbatim
import Taomee.Lib.Brackets
import Taomee.Dirty.Tags
import Taomee.Dirty.Preserved
import Taomee.Dirty.Safety
import Taomee.Dirty.FirstWord
import Taomee.Dirty.Alnum
import Taomee.Dirty.FileLines
import Taomee.Dirty.LoadEnds
import Taomee.Dirty.Covered
import Taomee.Shm.TmShm
import Taomee.Shm.Refresh
import Taomee.Dirty.Switch
import Taomee.Dirty.Lemmas.InStep
import Taomee.Dirty.UpToDate
import Taomee.Timer.Successor
import Taomee.Timer.OnTime
import Taomee.Dirty.Lemmas.Stream
import Taomee.Dirty.Stale
import Taomee.Dirty.Transfer
import Taomee.Dirty.ServerList
import Taomee.Lib.Within
import Taomee.Config.Grammar
import Taomee.Config.Dump
import Taomee.Config.Fields
import Taomee.Attr.HashTable
import Taomee.Shmq.Calls
import Taomee.Shmq.Resting
import Taomee.Lib.Fairness
import Taomee.Shmq.Progress
import Taomee.Lib.ListLoop
import Taomee.Lib.Registry
import Taomee.Timer.Reload
import Taomee.Timer.Lemmas.Entries
import Taomee.Timer.Lemmas.MicroList
import Taomee.Timer.Lemmas.Turns
import Taomee.Timer.Lemmas.Refresh
import Taomee.Timer.Removed
import Taomee.Attr.Walk
import Taomee.Attr.Lookups
import Taomee.Lib.Bits
import Taomee.Attr.Key
import Taomee.Dataformatter.BinStr
import Taomee.Dataformatter.HexText
import Taomee.Dataformatter.Separated
import Taomee.Tlog.Sendlog
import Taomee.Tlog.LastLimit
import Taomee.Tlog.TokenBucket
import Taomee.Tlog.Traced
import Taomee.Tlog.Svc
import Taomee.Tlog.SvcReload
import Taomee.Tlog.BootLog
import Taomee.Time.IntegralDay
import Taomee.Lib.Rings
import Taomee.Lists.Lists
import Taomee.Lists.Refine
import Taomee.Lib.Semaphore
import Taomee.Lock.Lock
import Taomee.Lock.Exclusion
import Taomee.Lib.Programs
import Taomee.Lib.Segments
import Taomee.Attr.Shm
import Taomee.Attr.Attach
import Taomee.Shm.Segment
import Taomee.Shm.Held
import Taomee.Shm.Created
import Taomee.Lib.Decimal
import Taomee.Log.Log
import Taomee.Log.Names
import Taomee.Log.Today
import Taomee.Log.Recycle
import Taomee.Log.Last
import Taomee.Log.Interval
import Taomee.Log.Resume
import Taomee.Shmq.Copy
import Taomee.Lib.Linear
import Taomee.Crypt.Schedule
import Taomee.Crypt.Related
