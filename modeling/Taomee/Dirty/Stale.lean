import Taomee.Dirty.Lemmas.Stream
import Taomee.Dirty.Startup

/-!
# The bytes that were never received

The receive loop looks at the fields of a packet before it knows that the packet holds them. Behind the
first packet the buffer has been filled by packets; the first one can let through what the buffer held
when the cycle began.
-/

namespace Taomee.Dirty

variable {md5 : List UInt8 → List UInt8} {fuel : Nat} {canCreate : Bool} {r r' : RecvFile} {c : Cycle} {g : Globals}
  {bytes localMd5Dgst : List UInt8} {net net' : List Net} {reply : Reply}

/-! ## Packets without all of their fields -/

/-- A packet that is too short for its fixed part ends the loop. -/
theorem recvFile_short (fuel : Nat) (h0 : r.curRecvLen = 0) (h : nextPacket r.net = some (bytes, net'))
    (hshort : bytes.length < dirtyFilePacketFixLen) : recvFile canCreate (fuel + 1) r =
    if ((r.buf.write 0 bytes).load32 38 = 0 ∨ (r.buf.write 0 bytes).load32 38 = 1) ∧
        (r.buf.write 0 bytes).load32 34 = 0 then some (.nothingNew r.newFile)
    else some (.failed r.newFile) := by
  rw [recvFile_packet fuel (packet_of_next h0 h)]
  show (if ¬ ((r.buf.write 0 bytes).load32 38 = 0 ∨ (r.buf.write 0 bytes).load32 38 = 1) then _
    else if (r.buf.write 0 bytes).load32 34 = 0 then _ else _) = _
  by_cases hend : (r.buf.write 0 bytes).load32 38 = 0 ∨ (r.buf.write 0 bytes).load32 38 = 1
  · rw [if_neg (not_not_intro hend)]
    by_cases htotal : (r.buf.write 0 bytes).load32 34 = 0
    · rw [if_pos htotal, if_pos ⟨hend, htotal⟩]
    · have hrefused : ¬ r.Accepts canCreate (r.packetOf bytes net') := by
        rintro ⟨-, -, hlen, -⟩
        have hlen : (Buf.ofList bytes).load32 0 = dirtyFilePacketFixLen + _ := hlen
        have := nextPacket_length h
        omega
      rw [if_neg htotal, if_pos hrefused, if_neg fun h => htotal h.2]
  · rw [if_pos hend, if_neg fun h => hend h.1]

/-- The locals are the same and the buffers agree on their first `n` bytes. -/
structure SameUpTo (n : Nat) (r r' : RecvFile) : Prop where
  buf : ∀ i, i < n → r.buf i = r'.buf i
  net : r.net = r'.net
  curRecvLen : r.curRecvLen = r'.curRecvLen
  fileLen : r.fileLen = r'.fileLen
  newFile : r.newFile = r'.newFile
  servrMd5 : r.servrMd5 = r'.servrMd5

theorem SameUpTo.write {n : Nat} (h : SameUpTo n r r') {i : Nat} (hi : i < n ∨ i < bytes.length) :
    r.buf.write 0 bytes i = r'.buf.write 0 bytes i := by
  by_cases hin : i < bytes.length
  · rw [Buf.write_zero_inside _ hin, Buf.write_zero_inside _ hin]
  · rw [Buf.write_outside _ (by omega), Buf.write_outside _ (by omega)]
    exact h.buf i (by omega)

/-- A packet that holds its fixed part has the same effect on both, if the packets behind it have. -/
theorem recvFile_long {n : Nat} (h0 : r.curRecvLen = 0) (hsame : SameUpTo n r r')
    (hnext : nextPacket r.net = some (bytes, net')) (hlong : dirtyFilePacketFixLen ≤ bytes.length)
    (ih : ∀ r r', r.curRecvLen = 0 → SameUpTo 42 r r' → recvFile canCreate fuel r = recvFile canCreate fuel r') :
    recvFile canCreate (fuel + 1) r = recvFile canCreate (fuel + 1) r' := by
  have h0' : r'.curRecvLen = 0 := hsame.curRecvLen ▸ h0
  have hnext' : nextPacket r'.net = some (bytes, net') := hsame.net ▸ hnext
  obtain ⟨htotal, hend, hblock, hdigest⟩ := packetOf_fields r net' hlong
  obtain ⟨htotal', hend', hblock', hdigest'⟩ := packetOf_fields r' net' hlong
  rw [recvFile_packet fuel (packet_of_next h0 hnext), recvFile_packet fuel (packet_of_next h0' hnext'), hend,
    hend', htotal, htotal', hdigest, hdigest', ← hsame.newFile, ← hsame.servrMd5]
  have haccepts : r.Accepts canCreate (r.packetOf bytes net') ↔ r'.Accepts canCreate (r'.packetOf bytes net') := by
    unfold RecvFile.Accepts
    rw [htotal, htotal', hblock, hblock', hsame.fileLen, hsame.newFile]
    rfl
  by_cases haccept : r.Accepts canCreate (r.packetOf bytes net')
  · -- the packet has the announced length, so that all of its block has arrived
    have hlen : (Buf.ofList bytes).load32 0 = dirtyFilePacketFixLen + (Buf.ofList bytes).load32 74 := by
      rw [← hblock]
      exact haccept.2.2.1
    have hall : bytes.length = (Buf.ofList bytes).load32 0 := by
      have := nextPacket_length hnext
      unfold protoHeadLen at this
      unfold dirtyFilePacketFixLen at hlen
      omega
    have hb := packetOf_block r net' (hall.trans hlen)
    have hb' := packetOf_block r' net' (hall.trans hlen)
    have hnextStates := ih (r.afterPacket (r.packetOf bytes net'))
      (r'.afterPacket (r'.packetOf bytes net')) (by rw [afterPacket_packetOf r net' hall]) (by
        rw [afterPacket_packetOf r net' hall, afterPacket_packetOf r' net' hall, htotal, htotal', hdigest, hdigest',
          hb, hb', hsame.newFile, hsame.servrMd5]
        refine ⟨fun i hi => hsame.write (.inr (by unfold dirtyFilePacketFixLen at hlong; omega)), rfl, rfl, rfl, rfl, rfl⟩)
    rw [if_neg (not_not_intro haccept), if_neg (not_not_intro (haccepts.mp haccept)), hb, hb', hnextStates]
  · rw [if_pos haccept, if_pos fun h => haccept (haccepts.mpr h)]

/-- Between two packets, the loop sees only the first bytes of what the buffer holds. -/
theorem recvFile_same (fuel : Nat) : ∀ r r' : RecvFile, r.curRecvLen = 0 → SameUpTo 42 r r' →
    recvFile canCreate fuel r = recvFile canCreate fuel r' := by
  induction fuel with
  | zero => exact fun _ _ _ _ => rfl
  | succ fuel ih =>
      intro r r' h0 hsame
      have h0' : r'.curRecvLen = 0 := hsame.curRecvLen ▸ h0
      cases hnext : nextPacket r.net with
      | none =>
          rw [recvFile_noPacket fuel (packet_of_none h0 hnext),
            recvFile_noPacket fuel (packet_of_none h0' (hsame.net ▸ hnext)), hsame.newFile]
      | some b =>
          obtain ⟨bytes, net'⟩ := b
          by_cases hshort : bytes.length < dirtyFilePacketFixLen
          · rw [recvFile_short fuel h0 hnext hshort, recvFile_short fuel h0' (hsame.net ▸ hnext) hshort, hsame.newFile,
              Buf.load32_congr fun i _ hi => @SameUpTo.write _ _ bytes _ hsame i (.inl (by omega)),
              Buf.load32_congr fun i _ hi => @SameUpTo.write _ _ bytes _ hsame i (.inl (by omega))]
          · exact recvFile_long h0 hsame hnext (Nat.not_lt.mp hshort) ih

/-! ## The first packet -/

/-- The first packet of the file is too short for the fields that the loop looks at, and what has arrived
of them goes with an empty file. -/
def StaleFields (bytes : List UInt8) : Prop :=
  bytes.length < 42 ∧ ∀ j c, 34 ≤ j → bytes[j]? = some c → c = 0 ∨ j = 38 ∧ c = 1

/-- The fields that stand for an empty file. -/
theorem emptyFile_iff (buf : Buf) : ((buf.load32 38 = 0 ∨ buf.load32 38 = 1) ∧ buf.load32 34 = 0) ↔
    ∀ j, 34 ≤ j → j < 42 → buf j = 0 ∨ j = 38 ∧ buf j = 1 := by
  have h0 : ∀ c : UInt8, c = 0 ↔ c.toNat = 0 := fun c => by simp [← UInt8.toNat_inj]
  have h1 : ∀ c : UInt8, c = 1 ↔ c.toNat = 1 := fun c => by simp [← UInt8.toNat_inj]
  unfold Buf.load32
  simp only [Nat.reduceAdd]
  constructor
  · rintro ⟨hend, htotal⟩ j hlow hhigh
    rw [h0, h1]
    obtain rfl | rfl | rfl | rfl | rfl | rfl | rfl | rfl : j = 34 ∨ j = 35 ∨ j = 36 ∨ j = 37 ∨ j = 38 ∨ j = 39 ∨
        j = 40 ∨ j = 41 := by omega
    all_goals omega
  · intro h
    have htotal : ∀ j, 34 ≤ j → j < 42 → j ≠ 38 → (buf j).toNat = 0 := by
      intro j hlow hhigh hne
      rcases h j hlow hhigh with hj | ⟨hj, -⟩
      · exact (h0 _).mp hj
      · exact absurd hj hne
    have hend : (buf 38).toNat = 0 ∨ (buf 38).toNat = 1 := by
      rcases h 38 (by decide) (by decide) with hj | ⟨-, hj⟩
      · exact .inl ((h0 _).mp hj)
      · exact .inr ((h1 _).mp hj)
    rw [htotal 34 (by decide) (by decide) (by decide), htotal 35 (by decide) (by decide) (by decide),
      htotal 36 (by decide) (by decide) (by decide), htotal 37 (by decide) (by decide) (by decide),
      htotal 39 (by decide) (by decide) (by decide), htotal 40 (by decide) (by decide) (by decide),
      htotal 41 (by decide) (by decide) (by decide)]
    omega

/-- With the bytes below 34 given, what the loop does with a first packet is settled by the stream, unless
the packet leaves the fields to the buffer. -/
theorem recvFile_first (fuel : Nat) (h0 : r.curRecvLen = 0) (hsame : SameUpTo 34 r r')
    (hno : ∀ bytes net', nextPacket r.net = some (bytes, net') → ¬ StaleFields bytes) :
    recvFile canCreate fuel r = recvFile canCreate fuel r' := by
  cases fuel with
  | zero => rfl
  | succ fuel =>
      have h0' : r'.curRecvLen = 0 := hsame.curRecvLen ▸ h0
      cases hnext : nextPacket r.net with
      | none =>
          rw [recvFile_noPacket fuel (packet_of_none h0 hnext),
            recvFile_noPacket fuel (packet_of_none h0' (hsame.net ▸ hnext)), hsame.newFile]
      | some b =>
          obtain ⟨bytes, net'⟩ := b
          by_cases hlong : dirtyFilePacketFixLen ≤ bytes.length
          · exact recvFile_long h0 hsame hnext hlong (recvFile_same fuel)
          · have hnot := hno bytes net' hnext
            rw [recvFile_short fuel h0 hnext (Nat.not_le.mp hlong),
              recvFile_short fuel h0' (hsame.net ▸ hnext) (Nat.not_le.mp hlong), hsame.newFile]
            by_cases hfields : 42 ≤ bytes.length
            · rw [Buf.load32_congr fun i _ hi => @SameUpTo.write _ _ bytes _ hsame i (.inr (by omega)),
                Buf.load32_congr fun i _ hi => @SameUpTo.write _ _ bytes _ hsame i (.inr (by omega))]
            · -- some byte of the fields has arrived and does not go with an empty file
              have hrefused : ∀ buf : Buf, ¬ (((buf.write 0 bytes).load32 38 = 0 ∨ (buf.write 0 bytes).load32 38 = 1) ∧
                  (buf.write 0 bytes).load32 34 = 0) := by
                intro buf hempty
                rw [emptyFile_iff] at hempty
                refine hnot ⟨Nat.not_le.mp hfields, fun j c hj hc => ?_⟩
                obtain ⟨hlt, rfl⟩ := List.getElem?_eq_some_iff.mp hc
                have hj := hempty j hj (by omega)
                rwa [Buf.write_zero_inside buf hlt, Buf.ofList, hc] at hj
              rw [if_neg (hrefused r.buf), if_neg (hrefused r'.buf)]

/-! ## The whole cycle -/

/-- The talk up to the request of the file, read off the stream: how it ends there, or the stream behind the
answer of the server. -/
def askForFile (c : Cycle) (localMd5Dgst : List UInt8) : Except Reply (List Net) :=
  let (got, n, net) := safeTcpRecvN (protoHeadLen + 16) [] c.net
  if c.sendMd5Ok = false then .error (.failed none)
  else if n < ((protoHeadLen + 16 : Nat) : Int) then .error (.failed none)
  else if (Buf.ofList got).load16 8 ≠ protoDirtyCmpMd5 ∨ (Buf.ofList got).load32 0 ≠ protoHeadLen + 16 then
    .error (.failed none)
  else if localMd5Dgst = (Buf.ofList got).slice protoHeadLen 16 then .error (.upToDate localMd5Dgst)
  else if c.sendFileOk = false then .error (.failed none)
  else .ok net

/-- The locals of the receive loop at its start, in a cycle whose buffer held `buf`. -/
def loopStart (buf : Buf) (c : Cycle) (net : List Net) : RecvFile where
  buf := tmDirtyInitProtoHead ((tmDirtyInitProtoHead buf protoHeadLen protoDirtyCmpMd5).write 0
    (safeTcpRecvN (protoHeadLen + 16) [] c.net).1) (protoHeadLen + 48) protoDirtyGetFile
  net := net
  curRecvLen := 0
  fileLen := 0
  newFile := none
  servrMd5 := none

/-- The talk with the server, with `buf` in the buffer when the cycle begins. -/
theorem exchange_stream (fuel : Nat) (c : Cycle) (localMd5Dgst : List UInt8) (buf : Buf) :
    (∀ reply, askForFile c localMd5Dgst = .error reply →
        exchange fuel { c with buf := buf } localMd5Dgst = some reply) ∧
      ∀ net, askForFile c localMd5Dgst = .ok net →
        exchange fuel { c with buf := buf } localMd5Dgst = recvFile c.canCreate fuel (loopStart buf c net) ∧
          (safeTcpRecvN (protoHeadLen + 16) [] c.net).1.length = 34 := by
  unfold exchange askForFile loopStart recvInto
  dsimp only
  rcases hrecv : safeTcpRecvN (protoHeadLen + 16) [] c.net with ⟨got, n, net⟩
  dsimp only
  by_cases h1 : c.sendMd5Ok = false
  · rw [if_pos h1, if_pos h1]
    exact ⟨fun reply h => congrArg some (Except.error.inj h), fun _ h => nomatch h⟩
  rw [if_neg h1, if_neg h1]
  by_cases h2 : n < ((protoHeadLen + 16 : Nat) : Int)
  · rw [if_pos h2, if_pos h2]
    exact ⟨fun reply h => congrArg some (Except.error.inj h), fun _ h => nomatch h⟩
  rw [if_neg h2, if_neg h2]
  obtain ⟨hcount, hle⟩ := safeTcpRecvN_length hrecv (by unfold protoHeadLen at h2; omega)
  have hgot : got.length = 34 := by
    unfold protoHeadLen at h2 hle
    omega
  have hslice (buf : Buf) : (buf.write 0 got).slice protoHeadLen 16 = (Buf.ofList got).slice protoHeadLen 16 :=
    Buf.slice_congr fun i _ hi => Buf.write_zero_inside _ (by unfold protoHeadLen at hi; omega)
  rw [load32_write _ (by omega), load16_write _ (by omega), hslice]
  by_cases h3 : (Buf.ofList got).load16 8 ≠ protoDirtyCmpMd5 ∨ (Buf.ofList got).load32 0 ≠ protoHeadLen + 16
  · rw [if_pos h3, if_pos h3]
    exact ⟨fun reply h => congrArg some (Except.error.inj h), fun _ h => nomatch h⟩
  rw [if_neg h3, if_neg h3]
  by_cases h4 : localMd5Dgst = (Buf.ofList got).slice protoHeadLen 16
  · rw [if_pos h4, if_pos h4]
    exact ⟨fun reply h => congrArg some (Except.error.inj h), fun _ h => nomatch h⟩
  rw [if_neg h4, if_neg h4]
  by_cases h5 : c.sendFileOk = false
  · rw [if_pos h5, if_pos h5]
    exact ⟨fun reply h => congrArg some (Except.error.inj h), fun _ h => nomatch h⟩
  rw [if_neg h5, if_neg h5]
  refine ⟨(fun _ h => nomatch h), fun net' h => ?_⟩
  obtain rfl := Except.ok.inj h
  exact ⟨rfl, hgot⟩

/-- What a cycle returns and leaves in the new file. -/
def observed (md5 : List UInt8 → List UInt8) (fuel : Nat) (c : Cycle) (g : Globals) :
    Option (Int × Option (List UInt8)) :=
  (tmDirtyLoadFromServer md5 fuel c g).map fun result => (result.2.ret, result.1.newFile)

/-- The cycle asks for the file and gets a first packet that leaves its fields to the buffer. -/
def ReadsStale (md5 : List UInt8 → List UInt8) (c : Cycle) (g : Globals) : Prop :=
  c.mkdirOk = true ∧ ∃ g₁ flag net bytes net', checkLocal md5 c g = some g₁ ∧ chooseServer c g₁ = some flag ∧
    askForFile c g₁.localMd5Dgst = .ok net ∧ nextPacket net = some (bytes, net') ∧ StaleFields bytes

theorem tmDirtyInitProtoHead_congr {buf buf' : Buf} {i : Nat} (len cmd : Nat) (h : buf i = buf' i) :
    tmDirtyInitProtoHead buf len cmd i = tmDirtyInitProtoHead buf' len cmd i := by
  have hwrite : ∀ {b b' : Buf} (off : Nat) (out : List UInt8), b i = b' i → b.write off out i = b'.write off out i := by
    intro b b' off out hb
    unfold Buf.write
    rw [hb]
  unfold tmDirtyInitProtoHead Buf.store32 Buf.store16
  exact hwrite _ _ (hwrite _ _ (hwrite _ _ (hwrite _ _ (hwrite _ _ h))))

theorem loopStart_same (buf buf' : Buf) (c : Cycle) (net : List Net)
    (h : (safeTcpRecvN (protoHeadLen + 16) [] c.net).1.length = 34) :
    SameUpTo 34 (loopStart buf c net) (loopStart buf' c net) := by
  refine ⟨fun i hi => tmDirtyInitProtoHead_congr _ _ ?_, rfl, rfl, rfl, rfl, rfl⟩
  rw [Buf.write_zero_inside _ (h.symm ▸ hi), Buf.write_zero_inside _ (h.symm ▸ hi)]

/-- A cycle on another buffer. -/
theorem cycle_same (fuel : Nat) (c : Cycle) (g : Globals) (buf buf' : Buf) (hno : ¬ ReadsStale md5 c g) :
    tmDirtyLoadFromServer md5 fuel { c with buf := buf } g = tmDirtyLoadFromServer md5 fuel { c with buf := buf' } g := by
  have hx : ∀ g₁ flag, c.mkdirOk = true → checkLocal md5 c g = some g₁ → chooseServer c g₁ = some flag →
      exchange fuel { c with buf := buf } g₁.localMd5Dgst = exchange fuel { c with buf := buf' } g₁.localMd5Dgst := by
    intro g₁ flag hdir hcheck hserver
    obtain ⟨herror, hok⟩ := exchange_stream fuel c g₁.localMd5Dgst buf
    obtain ⟨herror', hok'⟩ := exchange_stream fuel c g₁.localMd5Dgst buf'
    cases hask : askForFile c g₁.localMd5Dgst with
    | error reply => rw [herror reply hask, herror' reply hask]
    | ok net =>
        obtain ⟨hrun, hlen⟩ := hok net hask
        rw [hrun, (hok' net hask).1]
        exact recvFile_first fuel rfl (loopStart_same buf buf' c net hlen) fun bytes net' hnext hstale =>
          hno ⟨hdir, g₁, flag, net, bytes, net', hcheck, hserver, hask, hnext, hstale⟩
  unfold tmDirtyLoadFromServer
  by_cases hdir : c.mkdirOk = false
  · rw [if_pos hdir, if_pos hdir]
  rw [if_neg hdir, if_neg hdir]
  have hcheck : ∀ buf, checkLocal md5 { c with buf := buf } g = checkLocal md5 c g := fun _ => rfl
  have hchoose : ∀ buf g₁, chooseServer { c with buf := buf } g₁ = chooseServer c g₁ := fun _ _ => rfl
  have hinstall : ∀ buf, install md5 fuel { c with buf := buf } = install md5 fuel c := fun _ => rfl
  rw [hcheck buf, hcheck buf']
  cases hg : checkLocal md5 c g with
  | none => rfl
  | some g₁ =>
      dsimp only
      rw [hchoose buf, hchoose buf']
      cases hflag : chooseServer c g₁ with
      | none => rfl
      | some flag =>
          dsimp only
          rw [hx g₁ flag (eq_true_of_ne_false hdir) hg hflag, hinstall buf, hinstall buf']

/-- What is at 34 and behind, at the start of the loop, is what was in the buffer. -/
theorem loopStart_stale (buf : Buf) (c : Cycle) (net : List Net)
    (h : (safeTcpRecvN (protoHeadLen + 16) [] c.net).1.length = 34) {i : Nat} (hi : 34 ≤ i) :
    (loopStart buf c net).buf i = buf i := by
  have hhead : ∀ (b : Buf) (len cmd : Nat), tmDirtyInitProtoHead b len cmd i = b i := by
    intro b len cmd
    unfold tmDirtyInitProtoHead Buf.store16
    rw [Buf.store32_outside _ _ (by omega), Buf.store32_outside _ _ (by omega), Buf.store32_outside _ _ (by omega),
      Buf.write_outside _ (.inr (by simpa using Nat.le_trans (by decide) hi)), Buf.store32_outside _ _ (by omega)]
  show tmDirtyInitProtoHead _ _ _ i = _
  rw [hhead, Buf.write_outside _ (by omega), hhead]

/-- With one buffer the cycle takes such a packet for an empty file, with another one it refuses it. -/
theorem ReadsStale.differ (h : ReadsStale md5 c g) : ∃ buf buf' : Buf,
    observed md5 1 { c with buf := buf } g ≠ observed md5 1 { c with buf := buf' } g := by
  obtain ⟨hdir, g₁, flag, net, bytes, net', hcheck, hserver, hask, hnext, hshort, hfields⟩ := h
  have hask' := exchange_stream 1 c g₁.localMd5Dgst
  have hlen := ((hask' c.buf).2 net hask).2
  have hrun : ∀ buf, exchange 1 { c with buf := buf } g₁.localMd5Dgst =
      if (((loopStart buf c net).buf.write 0 bytes).load32 38 = 0 ∨ ((loopStart buf c net).buf.write 0 bytes).load32 38 = 1) ∧
        ((loopStart buf c net).buf.write 0 bytes).load32 34 = 0 then some (.nothingNew none) else some (.failed none) := by
    intro buf
    rw [((hask' buf).2 net hask).1]
    exact recvFile_short 0 rfl hnext (Nat.lt_trans hshort (by decide))
  have hcycle : ∀ buf reply, exchange 1 { c with buf := buf } g₁.localMd5Dgst = some reply →
      (reply = .nothingNew none → observed md5 1 { c with buf := buf } g = some (0, g₁.newFile)) ∧
        (reply = .failed none → observed md5 1 { c with buf := buf } g = some (-1, g₁.newFile)) := by
    intro buf reply hx
    unfold observed tmDirtyLoadFromServer
    rw [if_neg (by rw [hdir]; decide), show checkLocal md5 { c with buf := buf } g = some g₁ from hcheck]
    dsimp only
    rw [show chooseServer { c with buf := buf } g₁ = some flag from hserver]
    dsimp only
    rw [hx]
    constructor
    · rintro rfl
      rfl
    · rintro rfl
      rfl
  have hbyte : ∀ buf j, 34 ≤ j → (loopStart buf c net).buf.write 0 bytes j = bytes[j]?.getD (buf j) := by
    intro buf j hj
    by_cases hin : j < bytes.length
    · rw [Buf.write_zero_inside _ hin, Buf.ofList, List.getElem?_eq_getElem hin]
      rfl
    · rw [Buf.write_outside _ (by omega), loopStart_stale buf c net hlen hj, List.getElem?_eq_none (by omega)]
      rfl
  refine ⟨fun _ => 0, fun _ => 2, ?_⟩
  have hzero : observed md5 1 { c with buf := fun _ => 0 } g = some (0, g₁.newFile) := by
    refine (hcycle _ _ ((hrun fun _ => 0).trans (if_pos ((emptyFile_iff _).mpr fun j hj _ => ?_)))).1 rfl
    rw [hbyte _ j hj]
    cases hb : bytes[j]? with
    | none => exact .inl rfl
    | some b => exact hfields j b hj hb
  have htwo : observed md5 1 { c with buf := fun _ => 2 } g = some (-1, g₁.newFile) := by
    refine (hcycle _ _ ((hrun fun _ => 2).trans (if_neg fun hall => ?_))).2 rfl
    have hlast := (emptyFile_iff _).mp hall 41 (by decide) (by decide)
    rw [hbyte _ 41 (by decide), List.getElem?_eq_none (by omega)] at hlast
    exact absurd hlast (by decide)
  rw [hzero, htwo]
  simp

/-- What a cycle returns and leaves in the new file depends on the received bytes only, exactly when a first
packet of the file does not leave its fields to the buffer. -/
theorem tmDirtyLoadFromServer_received (md5 : List UInt8 → List UInt8) (c : Cycle) (g : Globals) :
    (∀ fuel buf buf', observed md5 fuel { c with buf := buf } g = observed md5 fuel { c with buf := buf' } g) ↔
      ¬ ReadsStale md5 c g := by
  constructor
  · intro h hstale
    obtain ⟨buf, buf', hne⟩ := hstale.differ
    exact hne (h 1 buf buf')
  · intro hno fuel buf buf'
    unfold observed
    rw [cycle_same fuel c g buf buf' hno]

/-- A server that announces the digest 01..01 and answers the request of the file with a bare head. -/
def bareHeadNet : List Net :=
  ([34, 0, 0, 0, 0, 0, 0, 0, 0xE9, 0xFD, 0, 0, 0, 0, 0, 0, 0, 0] ++ List.replicate 16 1 ++
    [18, 0, 0, 0, 0, 0, 0, 0, 0xEA, 0xFD, 0, 0, 0, 0, 0, 0, 0, 0] : List UInt8).map Net.byte

/-- With a bare head for the first packet, the cycle returns what the buffer has left in it. -/
theorem not_tmDirtyLoadFromServer_received : ¬ ∀ (md5 : List UInt8 → List UInt8) (c : Cycle) (g : Globals)
    (fuel : Nat) (buf buf' : Buf), observed md5 fuel { c with buf := buf } g = observed md5 fuel { c with buf := buf' } g := by
  intro h
  have hstale : ReadsStale id (cycleOf bareHeadNet) { initGlobals fun _ => none with servers := [{ ip := [0x31], port := 1 }] } := by
    have hnext : nextPacket (([18, 0, 0, 0, 0, 0, 0, 0, 0xEA, 0xFD, 0, 0, 0, 0, 0, 0, 0, 0] : List UInt8).map Net.byte) =
        some ([18, 0, 0, 0, 0, 0, 0, 0, 0xEA, 0xFD, 0, 0, 0, 0, 0, 0, 0, 0], []) := by decide +kernel
    refine ⟨rfl, _, 0, _, _, _, rfl, rfl, rfl, hnext, by decide, fun j c hj hc => ?_⟩
    rw [List.getElem?_eq_none (Nat.le_trans (by decide) hj)] at hc
    cases hc
  obtain ⟨buf, buf', hne⟩ := hstale.differ
  exact hne (h _ _ _ 1 buf buf')

end Taomee.Dirty
