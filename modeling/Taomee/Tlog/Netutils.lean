import Taomee.Lib.CInt
import Taomee.Lib.CString
import Taomee.Lib.ByteOrder
import Taomee.Lib.Inet

/-!
# Control packets (tlog/netutils.c)

The logger's side of remote control: the network sink and what a packet in its receive buffer does to
it. A packet starts at the front of the buffer; its fields stand at fixed offsets, packed, and are
converted in place.
-/

namespace Taomee.Tlog

def maxTraceUidNum : Nat := 8
def minTraceTime : Int := 3
def maxTraceTime : Int := 86400
def minRateLimit : Int := 1024
def maxRateLimit : Int := 1024 * 1024

def lcSetTraceUid : Nat := 1001
def lcUnsetTraceUid : Nat := 1002
def lcSetTraceAddr : Nat := 1003
def lcSetRateLimit : Nat := 1004

/-! ## Data -/

/-- `trace_uid_t`. -/
structure TraceUid where
  uid : Nat
  expireTime : Int

/-- `rate_limit_t`. -/
structure RateLimit where
  lastRateTime : Int
  token : Int
  limit : Int
  chgLimit : Int

/-- `struct sockaddr_in`. -/
structure SockaddrIn where
  sinFamily : Nat
  sinPort : Nat
  sinAddr : Nat

/-- `logger_udp_sink_t`. -/
structure UdpSink where
  sendfd : Int
  toaddr : SockaddrIn
  ip : Buf
  port : Nat
  addrChanged : Int
  rateLimit : RateLimit
  traceUidList : List TraceUid
  recvbuf : Buf
  sendbuf : Buf

/-! ## The layout of packets -/

/-- `sizeof(logger_ctrl_pkg_t)`, where the body starts. -/
def sizeofCtrlPkg : Nat := 20

/-- `sizeof(logger_set_trace_uid_t)`. -/
def sizeofSetTraceUid : Nat := 4

/-- `sizeof(pkg_trace_uid_t)`. -/
def sizeofPkgTraceUid : Nat := 8

/-- `sizeof(logger_set_trace_addr)`. -/
def sizeofSetTraceAddr : Nat := 18

/-- `sizeof(logger_set_rate_limit)`. -/
def sizeofSetRateLimit : Nat := 4

def inetAddrstrlen : Nat := 16

/-- The field of 32 bits at `off`, after `ntohl` has been applied to it in place. -/
def UdpSink.ntohlField (sink : UdpSink) (off : Nat) : UdpSink :=
  { sink with recvbuf := sink.recvbuf.store32 off (ntohl (sink.recvbuf.load32 off)) }

/-! ## The commands -/

/-- The loop of `add_to_trace_uid_list`. -/
def addToTraceUidList (now : Int) (uid : Nat) (lifeTime : Int) : List TraceUid → List TraceUid
  | [] => []
  | trace :: rest =>
      let trace := if trace.uid ≠ 0 ∧ now > trace.expireTime then { trace with uid := 0 } else trace
      if trace.uid = 0 then { uid := uid, expireTime := toI32 (now + lifeTime) } :: rest
      else trace :: addToTraceUidList now uid lifeTime rest

/-- `do_set_trace_addr`. -/
def doSetTraceAddr (sink : UdpSink) : UdpSink × Int :=
  let port := sink.recvbuf.load16 36
  if port = 0 ∨ sink.recvbuf 20 = 0 then (sink, -1)
  else if sink.port = ntohs port ∧ sink.ip.strncmpEq 0 sink.recvbuf 20 inetAddrstrlen = true then (sink, 0)
  else
    ({ sink with
        ip := sink.ip.snprintfStr 0 sink.recvbuf 20 (inetAddrstrlen - 1)
        port := ntohs port
        addrChanged := 1 }, 0)

/-- The loop of `do_set_trace_uid`, for `k` elements from the one at `off` on. -/
def setTraceUidLoop (now : Int) : Nat → Nat → UdpSink → UdpSink
  | 0, _, sink => sink
  | k + 1, off, sink =>
      let sink := sink.ntohlField off
      let sink := sink.ntohlField (off + 4)
      let uid := sink.recvbuf.load32 off
      let lifeTime := toI32 (sink.recvbuf.load32 (off + 4))
      if uid < 50000 then setTraceUidLoop now k (off + sizeofPkgTraceUid) sink
      else if lifeTime < minTraceTime ∨ lifeTime > maxTraceTime then
        setTraceUidLoop now k (off + sizeofPkgTraceUid) sink
      else
        setTraceUidLoop now k (off + sizeofPkgTraceUid)
          { sink with traceUidList := addToTraceUidList now uid lifeTime sink.traceUidList }

/-- `do_set_trace_uid`. -/
def doSetTraceUid (now : Int) (sink : UdpSink) : UdpSink × Int :=
  let sink := sink.ntohlField 20
  let count := sink.recvbuf.load32 20
  if count = 0 ∨ count > maxTraceUidNum then (sink, -1)
  else
    let explen := sizeofCtrlPkg + sizeofSetTraceUid + count * sizeofPkgTraceUid
    if explen ≠ sink.recvbuf.load32 0 then (sink, -1)
    else (setTraceUidLoop now count 24 sink, 0)

/-- `do_set_rate_limit`. -/
def doSetRateLimit (sink : UdpSink) : UdpSink × Int :=
  let sink := sink.ntohlField 20
  let limit := toI32 (sink.recvbuf.load32 20)
  if limit < minRateLimit ∨ limit > maxRateLimit ∨ limit = sink.rateLimit.limit then (sink, 0)
  else ({ sink with rateLimit := { sink.rateLimit with chgLimit := limit } }, 0)

/-- `proc_logger_pkg` on the receive buffer, for a datagram of `len` bytes. -/
def procLoggerPkg (now : Int) (len : Nat) (sink : UdpSink) : UdpSink :=
  let sink := sink.ntohlField 0
  let sink := sink.ntohlField 8
  if sink.recvbuf.load32 0 ≠ len then sink
  else
    let cmd := sink.recvbuf.load32 8
    if cmd = lcSetTraceUid then (doSetTraceUid now sink).1
    else if cmd = lcUnsetTraceUid then sink
    else if cmd = lcSetTraceAddr then (doSetTraceAddr sink).1
    else if cmd = lcSetRateLimit then (doSetRateLimit sink).1
    else sink

/-- One turn of the loop in `udp_sink_server`: a datagram is received and handled. -/
def recvPkg (now : Int) (d : List UInt8) (sink : UdpSink) : UdpSink :=
  let sink := { sink with recvbuf := sink.recvbuf.store d }
  if d.length > 0 then procLoggerPkg now d.length sink else sink

/-! ## Sending -/

def afInet : Nat := 2

/-- `update_udp_sink_sockaddr`. An address that is not one leaves the old `sin_addr`. -/
def updateUdpSinkSockaddr (sink : UdpSink) : UdpSink × Int :=
  let toaddr := { sink.toaddr with sinFamily := afInet, sinPort := ntohs sink.port }
  match inetPton (sink.ip.cstr inetAddrstrlen 0) with
  | some addr => ({ sink with toaddr := { toaddr with sinAddr := addr } }, 0)
  | none => ({ sink with toaddr := toaddr }, -1)

theorem updateUdpSinkSockaddr_eq (sink : UdpSink) :
    ∃ toaddr, (updateUdpSinkSockaddr sink).1 = { sink with toaddr := toaddr } := by
  unfold updateUdpSinkSockaddr
  dsimp only
  split
  · exact ⟨_, rfl⟩
  · exact ⟨_, rfl⟩

/-! ## tlog.c -/

/-- The sink as `init_logger` leaves it: cleared, without a socket. -/
def initUdpSink : UdpSink where
  sendfd := -1
  toaddr := { sinFamily := 0, sinPort := 0, sinAddr := 0 }
  ip := fun _ => 0
  port := 0
  addrChanged := 0
  rateLimit := { lastRateTime := 0, token := 0, limit := 0, chgLimit := 0 }
  traceUidList := List.replicate maxTraceUidNum { uid := 0, expireTime := 0 }
  recvbuf := fun _ => 0
  sendbuf := fun _ => 0

/-- `is_traced_uid`, at the time `now`. -/
def isTracedUid (sink : UdpSink) (now : Int) (uid : Nat) : Bool :=
  if uid = 0 then false
  else sink.traceUidList.any fun trace => trace.uid == uid && decide (now ≤ trace.expireTime)

end Taomee.Tlog
