import Taomee.Lib.Inet
import Taomee.Tlog.Netutils

/-!
# The control tool (tlog/tools/ctrl_tlog.c)

The tool builds a packet at the front of its send buffer. It clears the head only, so that the bytes
of the body that a command does not write are those of the buffer.
-/

namespace Taomee.Tlog.CtrlTlog

/-- `args_t`: what the commands read of the command line. -/
structure Args where
  count : Nat
  uid : Nat
  lifeTime : Int
  ip : Option (List UInt8)
  port : Nat
  rateLimit : Int

/-- `memset(pkg, 0, sizeof(*pkg))`. -/
def clearPkg (sendbuf : Buf) : Buf := sendbuf.fill 0 sizeofCtrlPkg 0

/-- `pkg->cmd = htonl(cmd); pkg->len = htonl(len)`, and the bytes given to `sendto`. -/
def sendPkg (sendbuf : Buf) (cmd len : Nat) : List UInt8 :=
  ((sendbuf.store32 8 (ntohl cmd)).store32 0 (ntohl len)).toList len

/-- The loop of `do_set_trace_uid`, for `k` elements from the one at `off` on. -/
def putTraceUids (uid : Nat) (lifeTime : Int) : Nat → Nat → Buf → Buf
  | 0, _, sendbuf => sendbuf
  | k + 1, off, sendbuf =>
      putTraceUids uid lifeTime k (off + sizeofPkgTraceUid)
        ((sendbuf.store32 off (ntohl uid)).store32 (off + 4) (ntohl (toU32 lifeTime)))

/-- `do_set_trace_uid`: the datagram it sends. -/
def doSetTraceUid (args : Args) (sendbuf : Buf) : Option (List UInt8) :=
  if args.uid < 50000 then none
  else if args.lifeTime < minTraceTime ∨ args.lifeTime > maxTraceTime then none
  else
    let args := { args with count := 1 }
    let sendbuf := (clearPkg sendbuf).store32 20 (ntohl args.count)
    let sendbuf := putTraceUids args.uid args.lifeTime args.count 24 sendbuf
    some (sendPkg sendbuf lcSetTraceUid (sizeofCtrlPkg + (sizeofSetTraceUid + args.count * sizeofPkgTraceUid)))

/-- `do_set_trace_addr`. -/
def doSetTraceAddr (args : Args) (sendbuf : Buf) : Option (List UInt8) :=
  match args.ip with
  | none => none
  | some ip =>
      if args.port = 0 then none
      else if inetPton ip = none then none
      else
        let sendbuf := (clearPkg sendbuf).snprintfStr 20 (Buf.store (fun _ => 0) ip) 0 (inetAddrstrlen - 1)
        let sendbuf := sendbuf.store16 36 (ntohs args.port)
        some (sendPkg sendbuf lcSetTraceAddr (sizeofCtrlPkg + sizeofSetTraceAddr))

/-- `do_set_rate_limit`. -/
def doSetRateLimit (args : Args) (sendbuf : Buf) : Option (List UInt8) :=
  let sendbuf := (clearPkg sendbuf).store32 20 (ntohl (toU32 args.rateLimit))
  some (sendPkg sendbuf lcSetRateLimit (sizeofCtrlPkg + sizeofSetRateLimit))

/-- The commands of `ctrl_opts` that send a packet. -/
inductive Ctrl
  | setTraceUid
  | setTraceAddr
  | setRateLimit

/-- `ctrl_opts[i].func`. -/
def Ctrl.func : Ctrl → Args → Buf → Option (List UInt8)
  | .setTraceUid => doSetTraceUid
  | .setTraceAddr => doSetTraceAddr
  | .setRateLimit => doSetRateLimit

end Taomee.Tlog.CtrlTlog
