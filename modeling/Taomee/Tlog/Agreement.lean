import Taomee.Tlog.CtrlTlog
import Taomee.Tlog.OwnBytes

/-!
# The control tool and the logger

What the tool sends has the effect that was asked for. A time until which a user is traced is kept in
32 bits, though, and the clock is not: the two programs agree while the sum fits.
-/

namespace Taomee.Tlog

open CtrlTlog (Args Ctrl clearPkg sendPkg putTraceUids)

variable {now : Int} {sink : UdpSink} {buf : Buf} {args : Args} {ctrl : Ctrl}

/-! ## What is asked for -/

/-- The arguments that the commands are made for. -/
def Accepted : Ctrl → Args → Prop
  | .setTraceUid, args =>
      50000 ≤ args.uid ∧ args.uid < 2 ^ 32 ∧ minTraceTime ≤ args.lifeTime ∧ args.lifeTime ≤ maxTraceTime
  | .setTraceAddr, args => ∃ ip, args.ip = some ip ∧ (inetPton ip).isSome ∧ 1 ≤ args.port ∧ args.port ≤ 65535
  | .setRateLimit, args => minRateLimit ≤ args.rateLimit ∧ args.rateLimit ≤ maxRateLimit

/-- A slot without a user, or with one whose time is over. -/
def TraceUid.Free (now : Int) (trace : TraceUid) : Prop := trace.uid = 0 ∨ now > trace.expireTime

/-- The sink can take the change, and it is one. -/
def Ready (now : Int) : Ctrl → Args → UdpSink → Prop
  | .setTraceUid, args, sink =>
      (∃ trace ∈ sink.traceUidList, trace.Free now) ∧ ∀ trace ∈ sink.traceUidList, trace.uid ≠ args.uid
  | .setTraceAddr, args, sink => ∀ ip, args.ip = some ip → ¬ (sink.port = args.port ∧ CStr sink.ip 0 ip)
  | .setRateLimit, args, sink => args.rateLimit ≠ sink.rateLimit.limit

/-- The change, and no other one: a user has taken a free slot, or the address is another one, or a
limit waits. -/
def Effect (now : Int) : Ctrl → Args → UdpSink → UdpSink → Prop
  | .setTraceUid, args, sink, sink' =>
      (∀ t, isTracedUid sink' t args.uid = decide (t ≤ now + args.lifeTime)) ∧
        ∃ l₁ trace trace' l₂, sink.traceUidList = l₁ ++ trace :: l₂ ∧ trace.Free now ∧
          sink'.rest = ({ sink with traceUidList := l₁ ++ trace' :: l₂ } : UdpSink).rest
  | .setTraceAddr, args, sink, sink' =>
      (∀ ip, args.ip = some ip → CStr sink'.ip 0 ip) ∧
        sink'.rest = ({ sink with ip := sink'.ip, port := args.port, addrChanged := 1 } : UdpSink).rest
  | .setRateLimit, args, sink, sink' =>
      sink'.rest = ({ sink with rateLimit := { sink.rateLimit with chgLimit := args.rateLimit } } : UdpSink).rest

/-! ## The packet in the receive buffer -/

theorem recvPkg_rest {d : List UInt8} (hd : d.length ≠ 0) (now : Int) (sink : UdpSink) :
    (recvPkg now d sink).rest =
      (pkgEffect now d.length { sink with recvbuf := sink.recvbuf.store d }).rest := by
  unfold recvPkg
  dsimp only
  rw [if_pos (Nat.pos_of_ne_zero hd), procLoggerPkg_rest]

/-- The receive buffer holds a packet with the body of the send buffer. -/
structure Sent (buf sendbuf : Buf) (cmd len : Nat) : Prop where
  head : Headed buf len cmd
  body : ∀ i, 20 ≤ i → i < len → buf i = sendbuf i

theorem sent_sendPkg (recvbuf sendbuf : Buf) {cmd len : Nat} (hcmd : cmd < 2 ^ 32) (hlen : len < 2 ^ 32)
    (hbody : 20 ≤ len) : Sent (recvbuf.store (sendPkg sendbuf cmd len)) sendbuf cmd len := by
  have hholds : ∀ i, i < len → recvbuf.store (sendPkg sendbuf cmd len) i =
      (sendbuf.store32 8 (ntohl cmd)).store32 0 (ntohl len) i := by
    intro i hi
    rw [sendPkg, Buf.store, Buf.getElem?_toList _ hi]
    rfl
  refine ⟨⟨?_, ?_⟩, fun i h20 hi => ?_⟩
  · rw [Buf.loadBe32_congr fun i _ hi => hholds i (by omega)]
    exact Buf.loadBe32_store32_ntohl _ _ hlen
  · rw [Buf.loadBe32_congr fun i _ hi => hholds i (by omega),
      Buf.loadBe32_congr fun i hi _ => Buf.store32_outside _ _ (by omega)]
    exact Buf.loadBe32_store32_ntohl _ _ hcmd
  · rw [hholds i hi, Buf.store32_outside _ _ (by omega), Buf.store32_outside _ _ (by omega)]

theorem Sent.loadBe32 {sendbuf : Buf} {cmd len off n : Nat} (h : Sent buf sendbuf cmd len) (hn : n < 2 ^ 32)
    (hoff : 20 ≤ off) (hlen : off + 4 ≤ len) (start : Buf)
    (hword : ∀ i, off ≤ i → i < off + 4 → sendbuf i = start.store32 off (ntohl n) i) : buf.loadBe32 off = n := by
  rw [Buf.loadBe32_congr fun i h1 h2 => (h.body i (by omega) (by omega)).trans (hword i h1 h2)]
  exact Buf.loadBe32_store32_ntohl _ _ hn

theorem Sent.load16 {sendbuf : Buf} {cmd len off : Nat} (h : Sent buf sendbuf cmd len) (hoff : 20 ≤ off)
    (hlen : off + 2 ≤ len) : buf.load16 off = sendbuf.load16 off := by
  unfold Buf.load16
  rw [h.body off hoff (by omega), h.body (off + 1) (by omega) (by omega)]

theorem toI32_toU32 {z : Int} (h0 : -2 ^ 31 ≤ z) (h : z < 2 ^ 31) : toI32 (toU32 z) = z := by
  unfold toI32 toU32
  rw [Int.bmod_def]
  split <;> omega

theorem toI32_range (z : Int) : -2 ^ 31 ≤ toI32 z ∧ toI32 z < 2 ^ 31 := by
  unfold toI32
  rw [Int.bmod_def]
  split <;> omega

/-! ## Users -/

theorem addToTraceUidList_cons_free {trace : TraceUid} (h : trace.Free now) (uid : Nat) (lifeTime : Int)
    (rest : List TraceUid) : addToTraceUidList now uid lifeTime (trace :: rest) =
      { uid := uid, expireTime := toI32 (now + lifeTime) } :: rest := by
  unfold addToTraceUidList
  dsimp only
  split
  · exact if_pos rfl
  · rename_i hkeep
    refine if_pos ?_
    rcases h with hzero | hover
    · exact hzero
    · exact Decidable.not_not.mp fun hne => hkeep ⟨hne, hover⟩

theorem addToTraceUidList_cons_used {trace : TraceUid} (h : ¬ trace.Free now) (uid : Nat) (lifeTime : Int)
    (rest : List TraceUid) : addToTraceUidList now uid lifeTime (trace :: rest) =
      trace :: addToTraceUidList now uid lifeTime rest := by
  obtain ⟨hused, hlater⟩ := not_or.mp h
  have hkeep : ¬ (trace.uid ≠ 0 ∧ now > trace.expireTime) := fun hover => hlater hover.2
  rw [addToTraceUidList, if_neg hkeep, if_neg hused]

/-- A user takes the first free slot. -/
theorem addToTraceUidList_free (now : Int) (uid : Nat) (lifeTime : Int) {l : List TraceUid}
    (h : ∃ trace ∈ l, trace.Free now) : ∃ l₁ trace l₂, l = l₁ ++ trace :: l₂ ∧ trace.Free now ∧
      addToTraceUidList now uid lifeTime l = l₁ ++ { uid := uid, expireTime := toI32 (now + lifeTime) } :: l₂ := by
  induction l with
  | nil =>
      obtain ⟨trace, hmem, _⟩ := h
      cases hmem
  | cons trace rest ih =>
      by_cases hfree : trace.Free now
      · exact ⟨[], trace, rest, rfl, hfree, addToTraceUidList_cons_free hfree uid lifeTime rest⟩
      · have hrest : ∃ trace ∈ rest, trace.Free now := by
          obtain ⟨other, hmem, hother⟩ := h
          rcases List.mem_cons.mp hmem with heq | hmem
          · exact absurd (heq ▸ hother) hfree
          · exact ⟨other, hmem, hother⟩
        obtain ⟨l₁, found, l₂, hl, hfound, hadd⟩ := ih hrest
        refine ⟨trace :: l₁, found, l₂, by rw [hl]; rfl, hfound, ?_⟩
        rw [addToTraceUidList_cons_used hfree, hadd]
        rfl

theorem isTracedUid_slot {uid : Nat} {e : Int} {l₁ l₂ : List TraceUid} (huid : uid ≠ 0)
    (h₁ : ∀ trace ∈ l₁, trace.uid ≠ uid) (h₂ : ∀ trace ∈ l₂, trace.uid ≠ uid)
    (hl : sink.traceUidList = l₁ ++ { uid := uid, expireTime := e } :: l₂) (t : Int) :
    isTracedUid sink t uid = decide (t ≤ e) := by
  have hother : ∀ l : List TraceUid, (∀ trace ∈ l, trace.uid ≠ uid) →
      (l.any fun trace => trace.uid == uid && decide (t ≤ trace.expireTime)) = false := by
    intro l h
    rw [List.any_eq_false]
    intro trace hmem
    simp [h trace hmem]
  unfold isTracedUid
  rw [if_neg huid, hl, List.any_append, List.any_cons, hother l₁ h₁, hother l₂ h₂]
  simp

theorem doSetTraceUid_sent (ha : Accepted .setTraceUid args) (sendbuf : Buf) :
    ∃ body, CtrlTlog.doSetTraceUid args sendbuf = some (sendPkg body lcSetTraceUid 32) ∧
      ∀ (recvbuf : Buf) l, tracedUids now 32 (recvbuf.store (sendPkg body lcSetTraceUid 32)) l =
        addToTraceUidList now args.uid args.lifeTime l := by
  obtain ⟨huid, hlt, hmin, hmax⟩ := ha
  unfold minTraceTime at hmin
  unfold maxTraceTime at hmax
  unfold CtrlTlog.doSetTraceUid
  dsimp only
  rw [if_neg (by omega), if_neg (by unfold minTraceTime maxTraceTime; omega)]
  refine ⟨_, rfl, fun recvbuf l => ?_⟩
  unfold putTraceUids putTraceUids
  have hsent := @sent_sendPkg recvbuf ((((clearPkg sendbuf).store32 20 (ntohl 1)).store32 24 (ntohl args.uid)).store32 28
    (ntohl (toU32 args.lifeTime))) lcSetTraceUid 32 (by decide) (by decide) (by decide)
  have hlife : toU32 args.lifeTime < 2 ^ 32 := by
    unfold toU32
    omega
  have hcount := @Sent.loadBe32 _ _ _ _ 20 1 hsent (by decide) (by decide) (by decide) (clearPkg sendbuf)
    fun i h1 h2 => by rw [Buf.store32_outside _ _ (by omega), Buf.store32_outside _ _ (by omega)]
  have huid' := @Sent.loadBe32 _ _ _ _ 24 _ hsent hlt (by decide) (by decide) _
    fun i h1 h2 => Buf.store32_outside _ _ (by omega)
  have hlife' := @Sent.loadBe32 _ _ _ _ 28 _ hsent hlife (by decide) (by decide) _ fun i h1 h2 => rfl
  unfold tracedUids
  rw [hcount, if_neg (by decide), if_neg (by decide)]
  unfold traceAll traceAll traceOne
  rw [huid', hlife', toI32_toU32 (by omega) (by omega), if_neg (by omega),
    if_neg (by unfold minTraceTime maxTraceTime; omega)]

theorem setTraceUid_effect (ha : Accepted .setTraceUid args) (hr : Ready now .setTraceUid args sink)
    (sendbuf : Buf) : ∃ d, CtrlTlog.doSetTraceUid args sendbuf = some d ∧
      (∀ t, isTracedUid (recvPkg now d sink) t args.uid = decide (t ≤ toI32 (now + args.lifeTime))) ∧
      ∃ l₁ trace trace' l₂, sink.traceUidList = l₁ ++ trace :: l₂ ∧ trace.Free now ∧
        (recvPkg now d sink).rest = ({ sink with traceUidList := l₁ ++ trace' :: l₂ } : UdpSink).rest := by
  obtain ⟨hfree, hnew⟩ := hr
  obtain ⟨body, hd, hlist⟩ := @doSetTraceUid_sent now _ ha sendbuf
  obtain ⟨l₁, trace, l₂, hl, htrace, hadd⟩ := addToTraceUidList_free now args.uid args.lifeTime hfree
  have hlen : (sendPkg body lcSetTraceUid 32).length = 32 := Buf.toList_length _ _
  have hsent := @sent_sendPkg sink.recvbuf body lcSetTraceUid 32 (by decide) (by decide) (by decide)
  have hrest : (recvPkg now (sendPkg body lcSetTraceUid 32) sink).rest =
      ({ sink with traceUidList := l₁ ++ { uid := args.uid, expireTime := toI32 (now + args.lifeTime) } :: l₂ } :
        UdpSink).rest := by
    rw [recvPkg_rest (by rw [hlen]; decide), hlen]
    unfold pkgEffect
    dsimp only
    rw [hsent.head.len, hsent.head.cmd, if_neg (fun hne => hne rfl), if_pos rfl, hlist, hadd]
    rfl
  refine ⟨_, hd, ?_, l₁, trace, _, l₂, hl, htrace, hrest⟩
  have hl' := traceUidList_of_rest hrest
  rw [hl] at hnew
  exact isTracedUid_slot (by have := ha.1; omega) (fun x hx => hnew x (List.mem_append_left _ hx))
    (fun x hx => hnew x (List.mem_append_right _ (List.mem_cons_of_mem _ hx))) hl'

/-! ## Addresses -/

theorem doSetTraceAddr_sent {ip : List UInt8} (hip : args.ip = some ip) (haddr : (inetPton ip).isSome)
    (hport : args.port ≠ 0) (sendbuf : Buf) :
    ∃ body, CtrlTlog.doSetTraceAddr args sendbuf = some (sendPkg body lcSetTraceAddr 38) ∧
      ∀ recvbuf : Buf, CStr (recvbuf.store (sendPkg body lcSetTraceAddr 38)) 20 ip ∧
        (recvbuf.store (sendPkg body lcSetTraceAddr 38)).load16 36 = ntohs args.port := by
  obtain ⟨addr, haddr⟩ := Option.isSome_iff_exists.mp haddr
  obtain ⟨-, hlen, h0⟩ := inetPton_string haddr
  unfold CtrlTlog.doSetTraceAddr
  dsimp only
  rw [hip]
  dsimp only
  rw [if_neg hport, if_neg (by rw [haddr]; exact Option.some_ne_none _)]
  refine ⟨_, rfl, fun recvbuf => ?_⟩
  have hsent := @sent_sendPkg recvbuf (((clearPkg sendbuf).snprintfStr 20 (Buf.store (fun _ => 0) ip) 0
    (inetAddrstrlen - 1)).store16 36 (ntohs args.port)) lcSetTraceAddr 38 (by decide) (by decide)
    (by decide)
  have harg : CStr (Buf.store (fun _ => 0) ip) 0 ip := by
    have hcstr := @CStr.of_list (Buf.store (fun _ => 0) ip) 0 ip fun i => by
      rw [Nat.zero_add]
      rfl
    rwa [takeWhile_ne_zero h0] at hcstr
  constructor
  · have hcopy : CStr ((clearPkg sendbuf).snprintfStr 20 (Buf.store (fun _ => 0) ip) 0 (inetAddrstrlen - 1)) 20 ip :=
      harg.snprintfStr (by unfold inetAddrstrlen; omega)
    refine hcopy.congr fun i h1 h2 => ?_
    rw [hsent.body i h1 (by omega)]
    exact Buf.write_outside _ (by omega)
  · rw [hsent.load16 (by decide) (by decide)]
    exact Buf.load16_store16 _ _ (ntohs_lt args.port)

theorem setTraceAddr_effect (ha : Accepted .setTraceAddr args) (hr : Ready now .setTraceAddr args sink)
    (sendbuf : Buf) : ∃ d, CtrlTlog.doSetTraceAddr args sendbuf = some d ∧
      Effect now .setTraceAddr args sink (recvPkg now d sink) := by
  obtain ⟨ip, hip, haddr, hmin, hmax⟩ := ha
  obtain ⟨body, hd, hrecv⟩ := doSetTraceAddr_sent hip haddr (by omega) sendbuf
  obtain ⟨hcstr, hport⟩ := hrecv sink.recvbuf
  obtain ⟨addr, haddr⟩ := Option.isSome_iff_exists.mp haddr
  obtain ⟨hne, hlen, -⟩ := inetPton_string haddr
  have hlen' : (sendPkg body lcSetTraceAddr 38).length = 38 := Buf.toList_length _ _
  have hsent := @sent_sendPkg sink.recvbuf body lcSetTraceAddr 38 (by decide) (by decide) (by decide)
  have hback : ntohs (ntohs args.port) = args.port := ntohs_ntohs (by omega)
  generalize hbuf : sink.recvbuf.store (sendPkg body lcSetTraceAddr 38) = buf at hcstr hport hsent
  have hport0 : ntohs args.port ≠ 0 := by
    intro h0
    rw [h0] at hback
    exact absurd (hback.symm.trans (by decide)) (show args.port ≠ 0 by omega)
  have hip0 : buf 20 ≠ 0 := by
    cases ip with
    | nil => exact absurd rfl hne
    | cons c ip =>
        rw [hcstr.1]
        exact hcstr.2.1
  have hdiff : ¬ (sink.port = args.port ∧ sink.ip.strncmpEq 0 buf 20 inetAddrstrlen = true) :=
    fun h => hr ip hip ⟨h.1, hcstr.of_strncmpEq hlen h.2⟩
  have hrest : (recvPkg now (sendPkg body lcSetTraceAddr 38) sink).rest =
      ({ sink with ip := sink.ip.snprintfStr 0 buf 20 (inetAddrstrlen - 1), port := args.port, addrChanged := 1 } :
        UdpSink).rest := by
    rw [recvPkg_rest (by rw [hlen']; decide), hlen', hbuf]
    unfold pkgEffect
    dsimp only
    rw [hsent.head.len, hsent.head.cmd, if_neg (fun hne => hne rfl), if_neg (by decide), if_pos rfl]
    unfold doSetTraceAddr
    dsimp only
    rw [hport, hback, if_neg (not_or.mpr ⟨hport0, hip0⟩), if_neg hdiff]
    rfl
  have hip' := ip_of_rest hrest
  refine ⟨_, hd, fun other hother => ?_, ?_⟩
  · obtain rfl := Option.some.inj (hip.symm.trans hother)
    rw [hip']
    exact hcstr.snprintfStr (by unfold inetAddrstrlen; omega)
  · rw [hip']
    exact hrest

/-! ## Limits -/

theorem setRateLimit_effect (ha : Accepted .setRateLimit args) (hr : Ready now .setRateLimit args sink)
    (sendbuf : Buf) : ∃ d, CtrlTlog.doSetRateLimit args sendbuf = some d ∧
      Effect now .setRateLimit args sink (recvPkg now d sink) := by
  obtain ⟨hmin, hmax⟩ := ha
  have hlow : -2 ^ 31 ≤ args.rateLimit ∧ args.rateLimit < 2 ^ 31 := by
    unfold minRateLimit at hmin
    unfold maxRateLimit at hmax
    omega
  have hlen : (sendPkg ((clearPkg sendbuf).store32 20 (ntohl (toU32 args.rateLimit))) lcSetRateLimit 24).length = 24 :=
    Buf.toList_length _ _
  have hsent := @sent_sendPkg sink.recvbuf ((clearPkg sendbuf).store32 20 (ntohl (toU32 args.rateLimit)))
    lcSetRateLimit 24 (by decide) (by decide) (by decide)
  have hlimit := @Sent.loadBe32 _ _ _ _ 20 (toU32 args.rateLimit) hsent (by unfold toU32; omega) (by decide) (by decide)
    _ fun i h1 h2 => rfl
  refine ⟨_, rfl, ?_⟩
  show (recvPkg now (sendPkg _ lcSetRateLimit 24) sink).rest = _
  rw [recvPkg_rest (by rw [hlen]; decide), hlen]
  generalize sink.recvbuf.store _ = buf at hsent hlimit
  unfold pkgEffect
  dsimp only
  rw [hsent.head.len, hsent.head.cmd, if_neg (fun hne => hne rfl), if_neg (by decide), if_neg (by decide), if_pos rfl,
    hlimit, toI32_toU32 hlow.1 hlow.2]
  unfold RateLimit.changed
  rw [if_neg (by rintro (h | h | h) <;> first | omega | exact hr h)]
  rfl

/-! ## The theorem -/

/-- A time in 32 bits lets the same times pass if it is the time itself. -/
theorem fits_of_same_times {z : Int} (h : ∀ t : Int, decide (t ≤ toI32 z) = decide (t ≤ z)) :
    -2 ^ 31 ≤ z ∧ z < 2 ^ 31 := by
  have h1 := (decide_eq_decide.mp (h z)).mpr (Int.le_refl _)
  have h2 := (decide_eq_decide.mp (h (toI32 z))).mp (Int.le_refl _)
  have heq : toI32 z = z := Int.le_antisymm h2 h1
  rw [← heq]
  exact toI32_range z

/-- The tool's packet has its effect if and only if the time until which a user is to be traced fits
into 32 bits. -/
theorem recvPkg_effect_iff (now : Int) (ctrl : Ctrl) (args : Args) (sendbuf : Buf) (sink : UdpSink)
    (ha : Accepted ctrl args) (hr : Ready now ctrl args sink) :
    (∃ d, ctrl.func args sendbuf = some d ∧ Effect now ctrl args sink (recvPkg now d sink)) ↔
      (ctrl = .setTraceUid → -2 ^ 31 ≤ now + args.lifeTime ∧ now + args.lifeTime < 2 ^ 31) := by
  cases ctrl with
  | setTraceUid =>
      obtain ⟨d, hd, htraced, hslot⟩ := setTraceUid_effect ha hr sendbuf
      constructor
      · rintro ⟨d', hd', htraced', -⟩ -
        obtain rfl := Option.some.inj (hd.symm.trans hd')
        exact fits_of_same_times fun t => (htraced t).symm.trans (htraced' t)
      · intro hfit
        obtain ⟨hlow, hhigh⟩ := hfit rfl
        rw [toI32_of_lt hlow hhigh] at htraced
        exact ⟨d, hd, htraced, hslot⟩
  | setTraceAddr =>
      constructor
      · intro _ heq
        cases heq
      · exact fun _ => setTraceAddr_effect ha hr sendbuf
  | setRateLimit =>
      constructor
      · intro _ heq
        cases heq
      · exact fun _ => setRateLimit_effect ha hr sendbuf

/-- User 50000 for three seconds. -/
def threeSeconds : Args where
  count := 0
  uid := 50000
  lifeTime := 3
  ip := none
  port := 0
  rateLimit := 0

theorem accepted_threeSeconds : Accepted .setTraceUid threeSeconds := by
  unfold Accepted
  decide

theorem ready_initUdpSink (now : Int) : Ready now .setTraceUid threeSeconds initUdpSink := by
  constructor
  · exact ⟨{ uid := 0, expireTime := 0 }, List.mem_cons_self, .inl rfl⟩
  · intro trace hmem
    rw [List.eq_of_mem_replicate hmem]
    decide

theorem recvPkg_effect_threeSeconds : ∃ d, Ctrl.setTraceUid.func threeSeconds (fun _ => 0) = some d ∧
    Effect 0 .setTraceUid threeSeconds initUdpSink (recvPkg 0 d initUdpSink) :=
  (recvPkg_effect_iff 0 .setTraceUid threeSeconds (fun _ => 0) initUdpSink accepted_threeSeconds
    (ready_initUdpSink 0)).mpr fun _ => by decide

theorem not_recvPkg_effect : ¬ ∀ (now : Int) (ctrl : Ctrl) (args : Args) (sendbuf : Buf) (sink : UdpSink),
    Accepted ctrl args → Ready now ctrl args sink →
      ∃ d, ctrl.func args sendbuf = some d ∧ Effect now ctrl args sink (recvPkg now d sink) := by
  intro h
  obtain ⟨d, hd, htraced, -⟩ := h (2 ^ 31) .setTraceUid threeSeconds (fun _ => 0) initUdpSink accepted_threeSeconds
    (ready_initUdpSink _)
  obtain ⟨d', hd', htraced', -⟩ := setTraceUid_effect accepted_threeSeconds (ready_initUdpSink (2 ^ 31)) (fun _ => 0)
  obtain rfl := Option.some.inj (hd'.symm.trans hd)
  exact absurd (fits_of_same_times fun t => (htraced' t).symm.trans (htraced t)) (by decide)

end Taomee.Tlog
