import Taomee.Dirty.TmDirty
import Taomee.Lib.ByteOrder

/-!
# Updates from the server (tm_dirty/tm_dirty.c, inet/tcp.c)

One cycle compares digests with a server, fetches its file in packets and loads it. What the server
sends is a stream of bytes that may stop, pause or fail at any place; what the file system and the
other calls answer are inputs of the cycle. The digest function is a parameter. Logging and warnings
are left out.
-/

namespace Taomee.Dirty

/-! ## Receiving -/

/-- What happens next on a connection; at the end of the list it is closed. -/
inductive Net
  | byte (c : UInt8)
  | intr
  | again
  | error
  deriving DecidableEq

/-- `safe_tcp_recv_n(sockfd, buf, total)` with the bytes `got` received so far: the bytes received, the
return value and what is left of the stream. A connection that is closed early gives 0. -/
def safeTcpRecvN (total : Nat) : List UInt8 → List Net → List UInt8 × Int × List Net
  | got, [] => (got, if got.length < total then 0 else got.length, [])
  | got, e :: net =>
      if got.length < total then
        match e with
        | .byte c => safeTcpRecvN total (got ++ [c]) net
        | .intr => safeTcpRecvN total got net
        | .again => (got, got.length, net)
        | .error => (got, -1, net)
      else (got, got.length, e :: net)

/-- `safe_tcp_recv_n(fd, buf + p, total)`. -/
def recvInto (buf : Buf) (p total : Nat) (net : List Net) : Buf × Int × List Net :=
  let (got, ret, net) := safeTcpRecvN total [] net
  (buf.write p got, ret, net)

/-- The rest of a packet, `rest` bytes from `buf + p` on, as long as bytes arrive. Each turn that goes on
has received one. -/
def recvRest : Nat → Buf → Nat → Nat → List Net → Buf × Bool × List Net
  | 0, buf, _, _, net => (buf, false, net)
  | turns + 1, buf, p, rest, net =>
      let (buf, cur, net) := recvInto buf p rest net
      if cur = rest then (buf, true, net)
      else if 0 < cur then recvRest turns buf (p + cur.toNat) (rest - cur.toNat) net
      else (buf, false, net)

/-! ## Packets -/

def protoDirtyCmpMd5 : Nat := 65001
def protoDirtyGetFile : Nat := 65002

/-- `sizeof(tm_dirty_protocol_t)`. -/
def protoHeadLen : Nat := 18

/-- `DIRTY_FILE_PACKET_FIX_LEN`. -/
def dirtyFilePacketFixLen : Nat := 18 + 56 + 4

/-- `DIRTY_FILE_PACKET_MAX_LEN`. -/
def dirtyFilePacketMaxLen : Nat := dirtyFilePacketFixLen + 4096

/-- `tm_dirty_init_proto_head(buf, len, cmd, 0, 0, 0)`. -/
def tmDirtyInitProtoHead (buf : Buf) (len cmd : Nat) : Buf :=
  ((((buf.store32 0 len).store16 8 cmd).store32 14 0).store32 4 0).store32 10 0

/-- How the talk with the server ends, and what has come into the new file if it has been opened. -/
inductive Reply
  | failed (newFile : Option (List UInt8))
  | upToDate (digest : List UInt8)
  | nothingNew (newFile : Option (List UInt8))
  | complete (content digest : List UInt8)
  deriving DecidableEq

/-- The locals of the receive loop: the buffer, the stream, `cur_recv_len`, `file_len`, the new file if
it has been opened and the server's digest if it has been recorded. -/
structure RecvFile where
  buf : Buf
  net : List Net
  curRecvLen : Int
  fileLen : Nat
  newFile : Option (List UInt8)
  servrMd5 : Option (List UInt8)

/-- The head of the next packet: the condition of the loop. -/
def recvHead (r : RecvFile) : Buf × Int × List Net × Bool :=
  if r.curRecvLen ≥ protoHeadLen then (r.buf, r.curRecvLen, r.net, true)
  else
    let neededLen := protoHeadLen - r.curRecvLen
    let (buf, ret, net) := recvInto r.buf r.curRecvLen.toNat neededLen.toNat r.net
    (buf, r.curRecvLen + ret, net, decide (r.curRecvLen + ret ≥ neededLen))

/-- The loop of `tm_dirty_load_from_server` that receives the file; `canCreate` tells whether the new
file can be opened. -/
def recvFile (canCreate : Bool) : Nat → RecvFile → Option Reply
  | 0, _ => none
  | fuel + 1, r =>
      match recvHead r with
      | (_, _, _, false) => some (.failed r.newFile)
      | (buf, curRecvLen, net, true) =>
          let packetLen := buf.load32 0
          if buf.load16 8 ≠ protoDirtyGetFile ∨ packetLen > dirtyFilePacketMaxLen then some (.failed r.newFile)
          else
            let (buf, ok, net) :=
              if curRecvLen < packetLen then
                recvRest packetLen buf curRecvLen.toNat (packetLen - curRecvLen.toNat) net
              else (buf, true, net)
            let totalRecvLen := if curRecvLen < packetLen then (packetLen : Int) else curRecvLen
            let totallen := buf.load32 34
            let endable := buf.load32 38
            let blockLen := buf.load32 74
            if ok = false then some (.failed r.newFile)
            else if endable ≠ 0 ∧ endable ≠ 1 then some (.failed r.newFile)
            else if totallen = 0 then some (.nothingNew r.newFile)
            else if r.fileLen ≠ 0 ∧ r.fileLen ≠ totallen then some (.failed r.newFile)
            else
              let servrMd5 := r.servrMd5.getD (buf.slice 18 16)
              if packetLen ≠ dirtyFilePacketFixLen + blockLen then some (.failed r.newFile)
              else if r.newFile = none ∧ canCreate = false then some (.failed r.newFile)
              else
                let content := r.newFile.getD [] ++ buf.slice dirtyFilePacketFixLen blockLen
                if endable = 1 then some (.complete content servrMd5)
                else
                  let overReadBytes := totalRecvLen - packetLen
                  let buf : Buf := fun i =>
                    if (i : Int) < overReadBytes then buf (dirtyFilePacketFixLen + blockLen + i) else buf i
                  recvFile canCreate fuel
                    { buf := buf, net := net, curRecvLen := overReadBytes, fileLen := totallen
                      newFile := some content, servrMd5 := some servrMd5 }

/-! ## One cycle -/

/-- `tm_dirty_server_ip[i]` and `tm_dirty_server_port[i]`. -/
structure Server where
  ip : List UInt8
  port : Nat

/-- What the outside answers in one cycle. -/
structure Cycle where
  mkdirOk : Bool
  accessDenied : Bool
  canReadLocal : Bool
  connects : Server → Bool
  buf : Buf
  sendMd5Ok : Bool
  sendFileOk : Bool
  net : List Net
  canCreate : Bool
  canReadNew : Bool
  removeOk : Bool
  renameOk : Bool
  canLoad : Bool

/-- The global variables, and the files: the one under `localDirtyFilePath`, the new one beside it, and those
under other names. -/
structure Globals where
  localDirtyFilePath : List UInt8
  files : List UInt8 → Option (List UInt8)
  handles : Handles
  servers : List Server
  availableServerFlag : Nat
  localMd5Dgst : List UInt8
  localMd5Exist : Bool
  daemonCalled : Bool
  localFile : Option (List UInt8)
  newFile : Option (List UInt8)

/-- A transfer that was broken off has left a new file behind, if it has come to open it. -/
def Globals.leave (g : Globals) (newFile : Option (List UInt8)) : Globals := { g with newFile := newFile.or g.newFile }

/-- How a cycle ends. -/
inductive Outcome
  | failed
  | upToDate (digest : List UInt8)
  | nothingNew
  | loaded
  deriving DecidableEq

/-- The return value of `tm_dirty_load_from_server`. -/
def Outcome.ret : Outcome → Int
  | .failed => -1
  | .upToDate _ => -1
  | .nothingNew => 0
  | .loaded => 0

section

variable (md5 : List UInt8 → List UInt8)

/-- `tm_dirty_generate_md5_from_file`. -/
def generateMd5 (canRead : Bool) (file : Option (List UInt8)) : Option (List UInt8) :=
  if canRead then file.map md5 else none

/-- The local digest at the start of a cycle: cleared without a file, or computed once. -/
def checkLocal (c : Cycle) (g : Globals) : Option Globals :=
  if c.accessDenied = false ∧ g.localFile = none then some { g with localMd5Dgst := List.replicate 16 0 }
  else if g.localMd5Exist then some g
  else
    match generateMd5 md5 c.canReadLocal g.localFile with
    | some dgst => some { g with localMd5Dgst := dgst, localMd5Exist := true }
    | none => none

/-- The first server that answers, beginning with the one that answered last. -/
def chooseServer (c : Cycle) (g : Globals) : Option Nat :=
  ((List.range g.servers.length).map fun i => (i + g.availableServerFlag) % g.servers.length).find? fun flag =>
    match g.servers[flag]? with
    | some server => c.connects server
    | none => false

/-- The talk with the server, from the comparison of the digests to the last packet of the file. -/
def exchange (fuel : Nat) (c : Cycle) (localMd5Dgst : List UInt8) : Option Reply :=
  let buf := tmDirtyInitProtoHead c.buf protoHeadLen protoDirtyCmpMd5
  if c.sendMd5Ok = false then some (.failed none)
  else
    let totalRecvLen := protoHeadLen + 16
    let (buf, n, net) := recvInto buf 0 totalRecvLen c.net
    if n < totalRecvLen then some (.failed none)
    else if buf.load16 8 ≠ protoDirtyCmpMd5 ∨ buf.load32 0 ≠ totalRecvLen then some (.failed none)
    else if localMd5Dgst = buf.slice protoHeadLen 16 then some (.upToDate localMd5Dgst)
    else
      let buf := tmDirtyInitProtoHead buf (protoHeadLen + 48) protoDirtyGetFile
      if c.sendFileOk = false then some (.failed none)
      else
        recvFile c.canCreate fuel
          { buf := buf, net := net, curRecvLen := 0, fileLen := 0, newFile := none, servrMd5 := none }

/-- The end of a cycle: the new file is checked, put in the place of the old one and loaded. -/
def install (fuel : Nat) (c : Cycle) (g : Globals) (content servrMd5Dgst : List UInt8) : Option (Globals × Outcome) :=
  let g := { g with newFile := some content }
  match generateMd5 md5 c.canReadNew g.newFile with
  | none => some (g, .failed)
  | some dgst =>
      let g := { g with localMd5Dgst := dgst }
      if g.localMd5Dgst ≠ servrMd5Dgst then some (g, .failed)
      else
        let g :=
          if c.renameOk then { g with localFile := g.newFile, newFile := none }
          else if c.removeOk then { g with localFile := none }
          else g
        match tmDirtyLoadNew fuel g.handles (if c.canLoad then g.localFile else none) with
        | none => none
        | some (handles, ret) =>
            if ret = -1 then some ({ g with handles := handles }, .failed)
            else some ({ g with handles := handles }, .loaded)

/-- `tm_dirty_load_from_server`. -/
def tmDirtyLoadFromServer (fuel : Nat) (c : Cycle) (g : Globals) : Option (Globals × Outcome) :=
  if c.mkdirOk = false then some (g, .failed)
  else
    match checkLocal md5 c g with
    | none => some (g, .failed)
    | some g =>
        match chooseServer c g with
        | none => some (g, .failed)
        | some flag =>
            let g := { g with availableServerFlag := flag }
            match exchange fuel c g.localMd5Dgst with
            | none => none
            | some (.failed newFile) => some (g.leave newFile, .failed)
            | some (.upToDate digest) => some (g, .upToDate digest)
            | some (.nothingNew newFile) => some (g.leave newFile, .nothingNew)
            | some (.complete content servrMd5Dgst) => install md5 fuel c g content servrMd5Dgst

end

/-! ## tm_dirty_daemon -/

def colon : UInt8 := 0x3A
def semicolon : UInt8 := 0x3B
def dot : UInt8 := 0x2E

/-- `strtoul(s, NULL, 10)`, as a `uint16_t`. -/
def parsePort (s : List UInt8) : Nat :=
  let digits := s.takeWhile fun c => 0x30 ≤ c && c ≤ 0x39
  min (digits.foldl (fun n c => n * 10 + (c.toNat - 0x30)) 0) (2 ^ 64 - 1) % 2 ^ 16

/-- The loop over `ip1:port1;ip2:port2` in `tm_dirty_daemon`, from the `i`-th server on. A port that is
left out is the one the array starts with. -/
def parseServers (isLegalIp : List UInt8 → Bool) : Nat → Nat → List UInt8 → Option (List Server)
  | 0, _, _ => some []
  | turns + 1, i, s =>
      if colon ∈ s then
        let ip := s.takeWhile fun c => c ≠ colon
        let behind := (s.dropWhile fun c => c ≠ colon).drop 1
        let port := if behind = [] then (if i < 3 then 28000 else 0) else parsePort behind
        if ip.length > 15 then none
        else if isLegalIp ip = false ∨ port = 0 then none
        else if semicolon ∈ behind then
          (parseServers isLegalIp turns (i + 1) ((behind.dropWhile fun c => c ≠ semicolon).drop 1)).map
            ({ ip := ip, port := port } :: ·)
        else some [{ ip := ip, port := port }]
      else some []

/-- `tm_dirty_server_ip` and the rest, from `server_addr`; `none` when the daemon gives up. -/
def serversOf (isLegalIp : List UInt8 → Bool) (serverAddr : Option (List UInt8)) : Option (List Server) :=
  match serverAddr with
  | none => none
  | some s =>
      let s := (s.filter fun c => (0x30 ≤ c && c ≤ 0x39) || c = colon || c = semicolon || c = dot).take 1024
      match parseServers isLegalIp s.length 0 s with
      | none => none
      | some [] => none
      | some servers => some servers

/-- The name of the new file: the path and ".new". Paths are short enough for the arrays. -/
def newFileName (path : List UInt8) : List UInt8 := path ++ [dot, 0x6E, 0x65, 0x77]

/-- `tm_dirty_local_dirty_file_path` is set, unless the argument is NULL. -/
def Globals.setPath (g : Globals) (localDirtyFilePath : Option (List UInt8)) : Globals :=
  match localDirtyFilePath with
  | none => g
  | some path =>
      let files := Function.update (Function.update g.files g.localDirtyFilePath g.localFile)
        (newFileName g.localDirtyFilePath) g.newFile
      { g with
        localDirtyFilePath := path
        files := files
        localFile := files path
        newFile := files (newFileName path) }

/-- What the outside answers in a call of `tm_dirty_daemon`. -/
structure DaemonEnv where
  isLegalIp : List UInt8 → Bool
  mmapOk : Bool
  cycle : Cycle
  canLoad : Bool
  threadOk : Bool

/-- `tm_dirty_daemon`. -/
def tmDirtyDaemon (md5 : List UInt8 → List UInt8) (fuel : Nat) (env : DaemonEnv)
    (localDirtyFilePath serverAddr : Option (List UInt8)) (g : Globals) : Option (Globals × Int) :=
  if g.daemonCalled then some (g, 0)
  else
    let g := g.setPath localDirtyFilePath
    match serversOf env.isLegalIp serverAddr with
    | none => some (g, -1)
    | some servers =>
        let g := { g with servers := servers }
        if env.mmapOk = false then some (g, -1)
        else
          let g := { g with handles := newHandles }
          match tmDirtyLoadFromServer md5 fuel env.cycle g with
          | none => none
          | some (g, outcome) =>
              let started : Globals → Option (Globals × Int) := fun g =>
                some ({ g with daemonCalled := true }, if env.threadOk then 0 else -1)
              if outcome.ret = -1 then
                if g.localMd5Exist then
                  match tmDirtyLoadNew fuel g.handles (if env.canLoad then g.localFile else none) with
                  | none => none
                  | some (handles, ret) =>
                      if ret = -1 then some ({ g with handles := handles }, -1) else started { g with handles := handles }
                else some (g, -1)
              else started g

/-- The global variables before the first call. -/
def initGlobals (files : List UInt8 → Option (List UInt8)) : Globals where
  localDirtyFilePath := []
  files := files
  handles := newHandles
  servers := []
  availableServerFlag := 0
  localMd5Dgst := List.replicate 16 0
  localMd5Exist := false
  daemonCalled := false
  localFile := files []
  newFile := files (newFileName [])

end Taomee.Dirty
