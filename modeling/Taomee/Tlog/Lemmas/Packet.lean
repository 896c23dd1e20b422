import Taomee.Tlog.Netutils

/-!
# What a packet does

The handlers convert the fields of a packet in place. Apart from the receive buffer they leave what a
reader of the unconverted packet would expect.
-/

namespace Taomee.Tlog

variable {now lifeTime : Int} {len uid off k : Nat} {sink sink' : UdpSink} {buf buf' : Buf}

/-- The sink apart from its receive buffer. -/
def UdpSink.rest (sink : UdpSink) : UdpSink := { sink with recvbuf := fun _ => 0 }

theorem UdpSink.rest_eq (h : sink.rest = sink'.rest) : sink' = { sink with recvbuf := sink'.recvbuf } := by
  cases sink
  cases sink'
  simp only [UdpSink.rest, UdpSink.mk.injEq] at h ⊢
  simp [h]

theorem traceUidList_of_rest (h : sink.rest = sink'.rest) : sink.traceUidList = sink'.traceUidList := by
  rw [UdpSink.rest_eq h]

theorem rateLimit_of_rest (h : sink.rest = sink'.rest) : sink.rateLimit = sink'.rateLimit := by
  rw [UdpSink.rest_eq h]

theorem ip_of_rest (h : sink.rest = sink'.rest) : sink.ip = sink'.ip := by
  rw [UdpSink.rest_eq h]

@[simp] theorem rest_recvbuf (sink : UdpSink) (buf : Buf) : ({ sink with recvbuf := buf } : UdpSink).rest = sink.rest :=
  rfl

@[simp] theorem ntohlField_rest (sink : UdpSink) (off : Nat) : (sink.ntohlField off).rest = sink.rest := rfl

@[simp] theorem ntohlField_rateLimit (sink : UdpSink) (off : Nat) :
    (sink.ntohlField off).rateLimit = sink.rateLimit := rfl

@[simp] theorem ntohlField_traceUidList (sink : UdpSink) (off : Nat) :
    (sink.ntohlField off).traceUidList = sink.traceUidList := rfl

theorem rest_traceUidList (sink : UdpSink) (off : Nat) (l : List TraceUid) :
    ({ sink.ntohlField off with traceUidList := l } : UdpSink).rest =
      ({ sink with traceUidList := l } : UdpSink).rest := rfl

theorem rest_rateLimit (sink : UdpSink) (off : Nat) (r : RateLimit) :
    ({ sink.ntohlField off with rateLimit := r } : UdpSink).rest =
      ({ sink with rateLimit := r } : UdpSink).rest := rfl

theorem ntohlField_load32 (sink : UdpSink) (off : Nat) :
    (sink.ntohlField off).recvbuf.load32 off = sink.recvbuf.loadBe32 off := by
  unfold UdpSink.ntohlField
  rw [Buf.load32_store32 _ _ (ntohl_lt _), Buf.ntohl_load32]

theorem ntohlField_outside (sink : UdpSink) {off i : Nat} (h : i < off ∨ off + 4 ≤ i) :
    (sink.ntohlField off).recvbuf i = sink.recvbuf i := Buf.store32_outside _ _ h

/-! ## Traced users -/

/-- The list of traced users after one element of a packet. -/
def traceOne (now : Int) (uid : Nat) (lifeTime : Int) (l : List TraceUid) : List TraceUid :=
  if uid < 50000 then l
  else if lifeTime < minTraceTime ∨ lifeTime > maxTraceTime then l
  else addToTraceUidList now uid lifeTime l

/-- The list after the `k` elements of a packet from the one at `off` on. -/
def traceAll (now : Int) (buf : Buf) : Nat → Nat → List TraceUid → List TraceUid
  | 0, _, l => l
  | k + 1, off, l =>
      traceAll now buf k (off + sizeofPkgTraceUid)
        (traceOne now (buf.loadBe32 off) (toI32 (buf.loadBe32 (off + 4))) l)

theorem traceAll_congr (k : Nat) : ∀ {off : Nat} {l : List TraceUid},
    (∀ i, off ≤ i → i < off + k * sizeofPkgTraceUid → buf i = buf' i) →
    traceAll now buf k off l = traceAll now buf' k off l := by
  induction k with
  | zero => exact fun _ => rfl
  | succ k ih =>
      intro off l h
      unfold sizeofPkgTraceUid at h
      unfold traceAll
      rw [Buf.loadBe32_congr fun i h1 h2 => h i (by omega) (by omega),
        @Buf.loadBe32_congr _ _ (off + 4) fun i h1 h2 => h i (by omega) (by omega)]
      refine ih fun i h1 h2 => ?_
      unfold sizeofPkgTraceUid at h1 h2
      exact h i (by omega) (by omega)

theorem setTraceUidLoop_rest (now : Int) (k : Nat) : ∀ (off : Nat) (sink : UdpSink),
    (setTraceUidLoop now k off sink).rest =
      ({ sink with traceUidList := traceAll now sink.recvbuf k off sink.traceUidList } : UdpSink).rest := by
  induction k with
  | zero => exact fun _ _ => rfl
  | succ k ih =>
      intro off sink
      have hlater : ∀ i, off + 8 ≤ i →
          ((sink.ntohlField off).ntohlField (off + 4)).recvbuf i = sink.recvbuf i := by
        intro i hi
        rw [ntohlField_outside _ (by omega), ntohlField_outside _ (by omega)]
      have huid : ((sink.ntohlField off).ntohlField (off + 4)).recvbuf.load32 off =
          sink.recvbuf.loadBe32 off := by
        rw [← ntohlField_load32]
        exact Buf.load32_congr fun i h1 h2 => ntohlField_outside _ (by omega)
      have hlife : ((sink.ntohlField off).ntohlField (off + 4)).recvbuf.load32 (off + 4) =
          sink.recvbuf.loadBe32 (off + 4) := by
        rw [ntohlField_load32]
        exact Buf.loadBe32_congr fun i h1 h2 => ntohlField_outside _ (by omega)
      have hcongr : ∀ l, traceAll now ((sink.ntohlField off).ntohlField (off + 4)).recvbuf k
          (off + sizeofPkgTraceUid) l = traceAll now sink.recvbuf k (off + sizeofPkgTraceUid) l :=
        fun l => traceAll_congr k fun i h1 _ => hlater i h1
      unfold setTraceUidLoop traceAll traceOne
      dsimp only
      rw [huid, hlife]
      split
      · rw [ih, hcongr]
        rfl
      split
      · rw [ih, hcongr]
        rfl
      · rw [ih]
        dsimp only
        rw [hcongr]
        rfl

/-- The list after the packet in the buffer, which gives the number of its elements and its length. -/
def tracedUids (now : Int) (len : Nat) (buf : Buf) (l : List TraceUid) : List TraceUid :=
  if buf.loadBe32 20 = 0 ∨ buf.loadBe32 20 > maxTraceUidNum then l
  else if sizeofCtrlPkg + sizeofSetTraceUid + buf.loadBe32 20 * sizeofPkgTraceUid ≠ len then l
  else traceAll now buf (buf.loadBe32 20) 24 l

theorem doSetTraceUid_rest (hlen : sink.recvbuf.load32 0 = len) : (doSetTraceUid now sink).1.rest =
    ({ sink with traceUidList := tracedUids now len sink.recvbuf sink.traceUidList } : UdpSink).rest := by
  have hlen' : (sink.ntohlField 20).recvbuf.load32 0 = len := by
    rw [← hlen]
    exact Buf.load32_congr fun i _ h2 => ntohlField_outside _ (by omega)
  have hcongr : ∀ k l, traceAll now (sink.ntohlField 20).recvbuf k 24 l = traceAll now sink.recvbuf k 24 l :=
    fun k l => traceAll_congr k fun i h1 _ => ntohlField_outside _ (by omega)
  rw [doSetTraceUid, tracedUids]
  simp only [ntohlField_load32, hlen']
  generalize sink.recvbuf.loadBe32 20 = count
  split
  · rfl
  split
  · rfl
  · dsimp only
    rw [setTraceUidLoop_rest, hcongr, rest_traceUidList, ntohlField_traceUidList]

/-! ## The address and the rate -/

theorem doSetTraceAddr_congr (h : sink.rest = sink'.rest)
    (hbuf : ∀ i, 20 ≤ i → i < 38 → sink.recvbuf i = sink'.recvbuf i) :
    (doSetTraceAddr sink).1.rest = (doSetTraceAddr sink').1.rest := by
  obtain hs := UdpSink.rest_eq h
  rw [hs]
  have hport : sink.recvbuf.load16 36 = sink'.recvbuf.load16 36 := by
    unfold Buf.load16
    rw [hbuf 36 (by omega) (by omega), hbuf 37 (by omega) (by omega)]
  have hcmp : sink.ip.strncmpEq 0 sink.recvbuf 20 inetAddrstrlen =
      sink.ip.strncmpEq 0 sink'.recvbuf 20 inetAddrstrlen :=
    Buf.strncmpEq_congr fun i h1 h2 => hbuf i h1 (by unfold inetAddrstrlen at h2; omega)
  have hcopy : sink.ip.snprintfStr 0 sink.recvbuf 20 (inetAddrstrlen - 1) =
      sink.ip.snprintfStr 0 sink'.recvbuf 20 (inetAddrstrlen - 1) :=
    Buf.snprintfStr_congr fun i h1 h2 => hbuf i h1 (by unfold inetAddrstrlen at h2; omega)
  unfold doSetTraceAddr
  dsimp only
  rw [hport, hbuf 20 (by omega) (by omega), hcmp, hcopy]
  split
  · rfl
  split
  · rfl
  · rfl

/-- The rates after a limit has been asked for. -/
def RateLimit.changed (r : RateLimit) (limit : Int) : RateLimit :=
  if limit < minRateLimit ∨ limit > maxRateLimit ∨ limit = r.limit then r else { r with chgLimit := limit }

theorem doSetRateLimit_rest (sink : UdpSink) : (doSetRateLimit sink).1.rest =
    ({ sink with rateLimit := sink.rateLimit.changed (toI32 (sink.recvbuf.loadBe32 20)) } : UdpSink).rest := by
  rw [doSetRateLimit, RateLimit.changed]
  simp only [ntohlField_load32, ntohlField_rateLimit]
  generalize toI32 (sink.recvbuf.loadBe32 20) = limit
  split
  · rfl
  · exact rest_rateLimit sink 20 _

theorem doSetRateLimit_rateLimit (sink : UdpSink) : (doSetRateLimit sink).1.rateLimit =
    sink.rateLimit.changed (toI32 (sink.recvbuf.loadBe32 20)) := by
  rw [rateLimit_of_rest (doSetRateLimit_rest sink)]

/-! ## proc_logger_pkg -/

/-- What the packet in the receive buffer asks for. -/
def pkgEffect (now : Int) (len : Nat) (sink : UdpSink) : UdpSink :=
  if sink.recvbuf.loadBe32 0 ≠ len then sink
  else if sink.recvbuf.loadBe32 8 = lcSetTraceUid then
    { sink with traceUidList := tracedUids now len sink.recvbuf sink.traceUidList }
  else if sink.recvbuf.loadBe32 8 = lcSetTraceAddr then (doSetTraceAddr sink).1
  else if sink.recvbuf.loadBe32 8 = lcSetRateLimit then
    { sink with rateLimit := sink.rateLimit.changed (toI32 (sink.recvbuf.loadBe32 20)) }
  else sink

theorem procLoggerPkg_rest (now : Int) (len : Nat) (sink : UdpSink) :
    (procLoggerPkg now len sink).rest = (pkgEffect now len sink).rest := by
  have hlen : ((sink.ntohlField 0).ntohlField 8).recvbuf.load32 0 = sink.recvbuf.loadBe32 0 := by
    rw [← ntohlField_load32]
    exact Buf.load32_congr fun i _ h2 => ntohlField_outside _ (by omega)
  have hcmd : ((sink.ntohlField 0).ntohlField 8).recvbuf.load32 8 = sink.recvbuf.loadBe32 8 := by
    rw [ntohlField_load32]
    exact Buf.loadBe32_congr fun i h1 _ => ntohlField_outside _ (by omega)
  have hbody : ∀ i, 20 ≤ i → ((sink.ntohlField 0).ntohlField 8).recvbuf i = sink.recvbuf i := by
    intro i hi
    rw [ntohlField_outside _ (by omega), ntohlField_outside _ (by omega)]
  unfold procLoggerPkg pkgEffect
  dsimp only
  rw [hlen, hcmd]
  split
  · rfl
  rename_i hlen'
  have hlen'' : ((sink.ntohlField 0).ntohlField 8).recvbuf.load32 0 = len :=
    hlen.trans (Decidable.not_not.mp hlen')
  split
  · -- the users of the packet
    rw [doSetTraceUid_rest hlen'']
    have hlist : tracedUids now len ((sink.ntohlField 0).ntohlField 8).recvbuf sink.traceUidList =
        tracedUids now len sink.recvbuf sink.traceUidList := by
      unfold tracedUids
      rw [@Buf.loadBe32_congr _ _ 20 fun i h1 _ => hbody i h1,
        traceAll_congr _ fun i h1 _ => hbody i (by omega)]
    exact congrArg (fun l => ({ sink with traceUidList := l } : UdpSink).rest) hlist
  split
  · -- the command that is not handled
    rename_i hunset
    rw [hunset, if_neg (by decide), if_neg (by decide)]
    rfl
  split
  · exact doSetTraceAddr_congr rfl fun i h1 _ => hbody i h1
  split
  · rw [doSetRateLimit_rest, @Buf.loadBe32_congr _ _ 20 fun i h1 _ => hbody i h1]
    rfl
  · rfl

end Taomee.Tlog
