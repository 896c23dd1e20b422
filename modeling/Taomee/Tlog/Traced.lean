import Taomee.Tlog.Agreement
import Mathlib.Data.List.Dedup
import Mathlib.Data.List.Induction

/-!
# Requests to trace a user

A request takes the first slot that is free or has expired. It does not look for a slot that the user
has already, so that the requests for one user can fill the list, and the time until which a user is
traced is kept in 32 bits.
-/

namespace Taomee.Tlog

/-! ## Requests -/

/-- A request that is accepted, and the time at which its packet is handled. -/
structure TraceRequest where
  now : Int
  uid : Nat
  lifeTime : Int
  deriving DecidableEq

/-- The time until which the user is to be traced. -/
def TraceRequest.expiry (r : TraceRequest) : Int := r.now + r.lifeTime

/-- The request in one element of a packet, if it is accepted. -/
def requestsOne (now : Int) (uid : Nat) (lifeTime : Int) : List TraceRequest :=
  if uid < 50000 ∨ lifeTime < minTraceTime ∨ lifeTime > maxTraceTime then [] else [⟨now, uid, lifeTime⟩]

/-- The accepted requests among the `k` elements of a packet from the one at `off` on. -/
def requestsFrom (now : Int) (buf : Buf) : Nat → Nat → List TraceRequest
  | 0, _ => []
  | k + 1, off =>
      requestsOne now (buf.loadBe32 off) (toI32 (buf.loadBe32 (off + 4))) ++
        requestsFrom now buf k (off + sizeofPkgTraceUid)

/-- A packet in the receive buffer, whose head has been converted, and the time. -/
abbrev TracePkg := Int × Buf

/-- The accepted requests of a packet, if its length fits their number. -/
def requestsOf (p : TracePkg) : List TraceRequest :=
  if p.2.loadBe32 20 = 0 ∨ p.2.loadBe32 20 > maxTraceUidNum then []
  else if sizeofCtrlPkg + sizeofSetTraceUid + p.2.loadBe32 20 * sizeofPkgTraceUid ≠ p.2.load32 0 then []
  else requestsFrom p.1 p.2 (p.2.loadBe32 20) 24

/-- The accepted requests of some packets, in order. -/
def requests (pkgs : List TracePkg) : List TraceRequest := pkgs.flatMap requestsOf

/-! ## The list and the sink -/

/-- The list of traced users after some requests. -/
def tracesAfter (l : List TraceUid) (rs : List TraceRequest) : List TraceUid :=
  rs.foldl (fun l r => addToTraceUidList r.now r.uid r.lifeTime l) l

/-- The list of a sink as `init_logger` leaves it, after some requests. -/
def traces (rs : List TraceRequest) : List TraceUid := tracesAfter initUdpSink.traceUidList rs

/-- The sink after `do_set_trace_uid` has handled some packets. -/
def handleTraces (pkgs : List TracePkg) : UdpSink :=
  pkgs.foldl (fun sink p => (doSetTraceUid p.1 { sink with recvbuf := p.2 }).1) initUdpSink

/-- How many other users are traced at a moment. -/
def othersTraced (l : List TraceUid) (now : Int) (uid : Nat) : Nat :=
  ((l.filter fun trace => trace.uid ≠ 0 ∧ trace.uid ≠ uid ∧ now ≤ trace.expireTime).map TraceUid.uid).dedup.length

/-- Some slot is free or has expired. -/
def FreeSlot (l : List TraceUid) (now : Int) : Prop := ∃ trace ∈ l, trace.Free now

/-- A user is traced up to a time. -/
def TracedUntil (l : List TraceUid) (uid : Nat) (t : Int) : Prop :=
  ∃ trace ∈ l, trace.uid = uid ∧ t ≤ trace.expireTime

/-- Whatever holds of each request that comes while less than 8 other users are traced: the packets
before and after its own, the requests before it in its own, and itself. -/
def ForRequests (pkgs : List TracePkg)
    (P : List TracePkg → TracePkg → List TracePkg → List TraceRequest → TraceRequest → Prop) : Prop :=
  ∀ before p after rs r rs', pkgs = before ++ p :: after → requestsOf p = rs ++ r :: rs' →
    othersTraced (traces (requests before ++ rs)) r.now r.uid < maxTraceUidNum → P before p after rs r

/-- The user is traced from the request up to its expiry, and not when every expiry that has been
requested for the user has passed. -/
def TakesEffect (before : List TracePkg) (p : TracePkg) (after : List TracePkg) (_ : List TraceRequest)
    (r : TraceRequest) : Prop :=
  ∀ later rest, after = later ++ rest → ∀ t,
    (r.now ≤ t → t ≤ r.expiry → (∀ q ∈ later, q.1 ≤ t) →
      isTracedUid (handleTraces (before ++ p :: later)) t r.uid = true) ∧
    ((∀ r' ∈ requests (before ++ p :: later), r'.uid = r.uid → r'.expiry < t) →
      isTracedUid (handleTraces (before ++ p :: later)) t r.uid = false)

/-- The request finds a slot and its expiry fits, or the user is traced as long already. -/
def HasSlot (before : List TracePkg) (_ : TracePkg) (_ : List TracePkg) (rs : List TraceRequest)
    (r : TraceRequest) : Prop :=
  (FreeSlot (traces (requests before ++ rs)) r.now ∧ r.expiry < 2 ^ 31) ∨
    TracedUntil (traces (requests before ++ rs)) r.uid r.expiry

/-! ## One request -/

variable {l : List TraceUid} {r : TraceRequest} {rs : List TraceRequest} {now t lifeTime : Int} {uid uid' : Nat}

theorem addToTraceUidList_full (h : ¬ FreeSlot l now) : addToTraceUidList now uid lifeTime l = l := by
  induction l with
  | nil => rfl
  | cons trace l ih =>
      have hused : ¬ trace.Free now := fun hfree => h ⟨trace, List.mem_cons_self, hfree⟩
      have hrest : ¬ FreeSlot l now := fun ⟨other, hmem, hfree⟩ => h ⟨other, List.mem_cons_of_mem _ hmem, hfree⟩
      rw [addToTraceUidList_cons_used hused, ih hrest]

/-- A slot that is in use stays as it is. -/
theorem mem_addToTraceUidList {trace : TraceUid} (hmem : trace ∈ l) (hused : ¬ trace.Free now) :
    trace ∈ addToTraceUidList now uid lifeTime l := by
  by_cases hfree : FreeSlot l now
  · obtain ⟨l₁, slot, l₂, rfl, hslot, hadd⟩ := addToTraceUidList_free now uid lifeTime hfree
    rw [hadd]
    rcases List.mem_append.mp hmem with hmem | hmem
    · exact List.mem_append_left _ hmem
    · rcases List.mem_cons.mp hmem with rfl | hmem
      · exact absurd hslot hused
      · exact List.mem_append_right _ (List.mem_cons_of_mem _ hmem)
  · rw [addToTraceUidList_full hfree]
    exact hmem

theorem mem_of_addToTraceUidList {trace : TraceUid} (h : trace ∈ addToTraceUidList now uid lifeTime l) :
    trace ∈ l ∨ trace = ⟨uid, toI32 (now + lifeTime)⟩ := by
  by_cases hfree : FreeSlot l now
  · obtain ⟨l₁, slot, l₂, rfl, -, hadd⟩ := addToTraceUidList_free now uid lifeTime hfree
    rw [hadd] at h
    rcases List.mem_append.mp h with hmem | hmem
    · exact .inl (List.mem_append_left _ hmem)
    · rcases List.mem_cons.mp hmem with heq | hmem
      · exact .inr heq
      · exact .inl (List.mem_append_right _ (List.mem_cons_of_mem _ hmem))
  · rw [addToTraceUidList_full hfree] at h
    exact .inl h

/-! ## Some requests -/

theorem tracesAfter_append (l : List TraceUid) (rs rs' : List TraceRequest) :
    tracesAfter l (rs ++ rs') = tracesAfter (tracesAfter l rs) rs' := List.foldl_append

/-- Nothing changes at a moment at which no slot is free. -/
theorem tracesAfter_full (h : ¬ FreeSlot l now) (hrs : ∀ r ∈ rs, r.now = now) : tracesAfter l rs = l := by
  induction rs with
  | nil => rfl
  | cons r rs ih =>
      change tracesAfter (addToTraceUidList r.now r.uid r.lifeTime l) rs = l
      rw [addToTraceUidList_full (by rw [hrs r List.mem_cons_self]; exact h)]
      exact ih fun r' hr' => hrs r' (List.mem_cons_of_mem _ hr')

theorem TracedUntil.mono {t' : Int} (h : TracedUntil l uid t) (hle : t' ≤ t) : TracedUntil l uid t' := by
  obtain ⟨trace, hmem, huid, ht⟩ := h
  exact ⟨trace, hmem, huid, Int.le_trans hle ht⟩

/-- A user who is traced up to a time stays so whatever is requested until then. -/
theorem TracedUntil.after (h : TracedUntil l uid t) (huid : uid ≠ 0) (hrs : ∀ r ∈ rs, r.now ≤ t) :
    TracedUntil (tracesAfter l rs) uid t := by
  induction rs generalizing l with
  | nil => exact h
  | cons r rs ih =>
      obtain ⟨trace, hmem, rfl, hle⟩ := h
      have hnow := hrs r List.mem_cons_self
      have hused : ¬ trace.Free r.now := by
        rintro (hzero | hover)
        · exact huid hzero
        · omega
      exact ih ⟨trace, mem_addToTraceUidList hmem hused, rfl, hle⟩ fun r' hr' => hrs r' (List.mem_cons_of_mem _ hr')

/-- What is in the list comes from a request. -/
theorem mem_tracesAfter {trace : TraceUid} (h : trace ∈ tracesAfter l rs) :
    trace ∈ l ∨ ∃ r ∈ rs, trace = ⟨r.uid, toI32 r.expiry⟩ := by
  induction rs generalizing l with
  | nil => exact .inl h
  | cons r rs ih =>
      rcases ih h with hmem | ⟨r', hr', heq⟩
      · rcases mem_of_addToTraceUidList hmem with hmem | heq
        · exact .inl hmem
        · exact .inr ⟨r, List.mem_cons_self, heq⟩
      · exact .inr ⟨r', List.mem_cons_of_mem _ hr', heq⟩

theorem tracedUntil_traces (h : TracedUntil (traces rs) uid t) (huid : uid ≠ 0) :
    ∃ r ∈ rs, r.uid = uid ∧ t ≤ toI32 r.expiry := by
  obtain ⟨trace, hmem, rfl, hle⟩ := h
  rcases mem_tracesAfter hmem with hmem | ⟨r, hr, rfl⟩
  · have hfree := List.eq_of_mem_replicate hmem
    rw [hfree] at huid
    exact absurd rfl huid
  · exact ⟨r, hr, rfl, hle⟩

/-! ## Packets -/

theorem traceOne_eq (now : Int) (uid : Nat) (lifeTime : Int) (l : List TraceUid) :
    traceOne now uid lifeTime l = tracesAfter l (requestsOne now uid lifeTime) := by
  unfold traceOne requestsOne
  by_cases huid : uid < 50000
  · rw [if_pos huid, if_pos (.inl huid)]
    rfl
  rw [if_neg huid]
  by_cases hlife : lifeTime < minTraceTime ∨ lifeTime > maxTraceTime
  · rw [if_pos hlife, if_pos (.inr hlife)]
    rfl
  · rw [if_neg hlife, if_neg (not_or.mpr ⟨huid, hlife⟩)]
    rfl

theorem traceAll_eq (now : Int) (buf : Buf) (k off : Nat) (l : List TraceUid) :
    traceAll now buf k off l = tracesAfter l (requestsFrom now buf k off) := by
  induction k generalizing off l with
  | zero => rfl
  | succ k ih =>
      unfold traceAll requestsFrom
      rw [ih, traceOne_eq, tracesAfter_append]

theorem tracesAfter_checked (count len : Nat) (l : List TraceUid) (rs : List TraceRequest) :
    (if count = 0 ∨ count > maxTraceUidNum then l
      else if sizeofCtrlPkg + sizeofSetTraceUid + count * sizeofPkgTraceUid ≠ len then l
      else tracesAfter l rs) =
    tracesAfter l (if count = 0 ∨ count > maxTraceUidNum then []
      else if sizeofCtrlPkg + sizeofSetTraceUid + count * sizeofPkgTraceUid ≠ len then []
      else rs) := by
  by_cases hcount : count = 0 ∨ count > maxTraceUidNum
  · rw [if_pos hcount, if_pos hcount]
    rfl
  rw [if_neg hcount, if_neg hcount]
  by_cases hlen : sizeofCtrlPkg + sizeofSetTraceUid + count * sizeofPkgTraceUid ≠ len
  · rw [if_pos hlen, if_pos hlen]
    rfl
  · rw [if_neg hlen, if_neg hlen]

theorem tracedUids_eq (p : TracePkg) (l : List TraceUid) :
    tracedUids p.1 (p.2.load32 0) p.2 l = tracesAfter l (requestsOf p) := by
  rw [tracedUids, requestsOf, traceAll_eq, tracesAfter_checked]

theorem handleTraces_concat (pkgs : List TracePkg) (p : TracePkg) :
    handleTraces (pkgs ++ [p]) = (doSetTraceUid p.1 { handleTraces pkgs with recvbuf := p.2 }).1 := by
  unfold handleTraces
  rw [List.foldl_append, List.foldl_cons, List.foldl_nil]

theorem requests_concat (pkgs : List TracePkg) (p : TracePkg) :
    requests (pkgs ++ [p]) = requests pkgs ++ requestsOf p := by
  unfold requests
  rw [List.flatMap_append, List.flatMap_singleton]

theorem doSetTraceUid_traceUidList (now : Int) (sink : UdpSink) (buf : Buf) :
    (doSetTraceUid now { sink with recvbuf := buf }).1.traceUidList =
      tracedUids now (buf.load32 0) buf sink.traceUidList :=
  traceUidList_of_rest (doSetTraceUid_rest rfl)

theorem handleTraces_traceUidList (pkgs : List TracePkg) :
    (handleTraces pkgs).traceUidList = traces (requests pkgs) := by
  induction pkgs using List.reverseRecOn with
  | nil => rfl
  | append_singleton pkgs p ih =>
      rw [handleTraces_concat, requests_concat, doSetTraceUid_traceUidList, tracedUids_eq, ih, traces, traces,
        tracesAfter_append]

theorem mem_requestsOne (h : r ∈ requestsOne now uid lifeTime) :
    r.now = now ∧ 50000 ≤ r.uid ∧ minTraceTime ≤ r.lifeTime := by
  unfold requestsOne at h
  by_cases hbad : uid < 50000 ∨ lifeTime < minTraceTime ∨ lifeTime > maxTraceTime
  · rw [if_pos hbad] at h
    cases h
  · rw [if_neg hbad] at h
    obtain rfl := List.mem_singleton.mp h
    obtain ⟨huid, hlife⟩ := not_or.mp hbad
    exact ⟨rfl, Nat.le_of_not_lt huid, Int.not_lt.mp (not_or.mp hlife).1⟩

theorem mem_requestsFrom {now : Int} {buf : Buf} {k off : Nat} (h : r ∈ requestsFrom now buf k off) :
    r.now = now ∧ 50000 ≤ r.uid ∧ minTraceTime ≤ r.lifeTime := by
  induction k generalizing off with
  | zero => cases h
  | succ k ih =>
      unfold requestsFrom at h
      rcases List.mem_append.mp h with h | h
      · exact mem_requestsOne h
      · exact ih h

theorem mem_requestsOf {p : TracePkg} (h : r ∈ requestsOf p) :
    r.now = p.1 ∧ 50000 ≤ r.uid ∧ minTraceTime ≤ r.lifeTime := by
  unfold requestsOf at h
  by_cases hcount : p.2.loadBe32 20 = 0 ∨ p.2.loadBe32 20 > maxTraceUidNum
  · rw [if_pos hcount] at h
    cases h
  rw [if_neg hcount] at h
  by_cases hlen : sizeofCtrlPkg + sizeofSetTraceUid + p.2.loadBe32 20 * sizeofPkgTraceUid ≠ p.2.load32 0
  · rw [if_pos hlen] at h
    cases h
  · rw [if_neg hlen] at h
    exact mem_requestsFrom h

theorem isTracedUid_iff {sink : UdpSink} (huid : uid ≠ 0) :
    isTracedUid sink t uid = true ↔ TracedUntil sink.traceUidList uid t := by
  unfold isTracedUid TracedUntil
  rw [if_neg huid]
  simp only [List.any_eq_true, Bool.and_eq_true, beq_iff_eq, decide_eq_true_eq]

theorem handleTraces_traced (pkgs : List TracePkg) (huid : uid ≠ 0) :
    isTracedUid (handleTraces pkgs) t uid = true ↔ TracedUntil (traces (requests pkgs)) uid t := by
  rw [isTracedUid_iff huid, handleTraces_traceUidList]

/-! ## Requests that take effect -/

variable {before after : List TracePkg} {p : TracePkg}

theorem requests_split (before later : List TracePkg) {rs' : List TraceRequest} (h : requestsOf p = rs ++ r :: rs') :
    requests (before ++ p :: later) = requests before ++ rs ++ r :: (rs' ++ requests later) := by
  unfold requests
  rw [List.flatMap_append, List.flatMap_cons, h, List.append_assoc, List.append_assoc, List.cons_append]

theorem traces_split (before later : List TracePkg) {rs' : List TraceRequest} (h : requestsOf p = rs ++ r :: rs') :
    traces (requests (before ++ p :: later)) = tracesAfter
      (addToTraceUidList r.now r.uid r.lifeTime (traces (requests before ++ rs))) (rs' ++ requests later) := by
  rw [requests_split before later h, traces, tracesAfter_append]
  rfl

/-- A time that is stored is not later than it was, if it is not before the 32 bits. -/
theorem toI32_le {z : Int} (h : -2 ^ 31 ≤ z) : toI32 z ≤ z := by
  unfold toI32
  rw [Int.bmod_def]
  split <;> omega

theorem mem_requests {pkgs : List TracePkg} (h : r ∈ requests pkgs) : ∃ q ∈ pkgs, r.now = q.1 ∧
    50000 ≤ r.uid ∧ minTraceTime ≤ r.lifeTime := by
  obtain ⟨q, hq, hr⟩ := List.mem_flatMap.mp h
  exact ⟨q, hq, mem_requestsOf hr⟩

/-- The expiry of a request fits into 32 bits from below, and is not before the request. -/
theorem expiry_bounds {pkgs : List TracePkg} (hnow : ∀ q ∈ pkgs, -2 ^ 31 ≤ q.1) (h : r ∈ requests pkgs) :
    -2 ^ 31 ≤ r.expiry ∧ r.now ≤ r.expiry ∧ r.uid ≠ 0 := by
  obtain ⟨q, hq, heq, huid, hlife⟩ := mem_requests h
  have hlow := hnow q hq
  unfold minTraceTime at hlife
  unfold TraceRequest.expiry
  omega

theorem HasSlot.takesEffect {rs' : List TraceRequest} (hnow : ∀ q ∈ before ++ p :: after, -2 ^ 31 ≤ q.1)
    (hp : requestsOf p = rs ++ r :: rs') (h : HasSlot before p after rs r) : TakesEffect before p after rs r := by
  have hmem : r ∈ requests (before ++ p :: after) := by
    rw [requests_split before after hp]
    exact List.mem_append_right _ List.mem_cons_self
  obtain ⟨hlow, hrle, huid⟩ := expiry_bounds hnow hmem
  -- right after the request, the user is traced up to its expiry
  have htraced : TracedUntil (addToTraceUidList r.now r.uid r.lifeTime (traces (requests before ++ rs)))
      r.uid r.expiry := by
    rcases h with ⟨hfree, hhigh⟩ | huntil
    · obtain ⟨l₁, slot, l₂, -, -, hadd⟩ := addToTraceUidList_free r.now r.uid r.lifeTime hfree
      rw [hadd]
      refine ⟨⟨r.uid, toI32 r.expiry⟩, List.mem_append_right _ List.mem_cons_self, rfl, ?_⟩
      exact Int.le_of_eq (toI32_of_lt hlow hhigh).symm
    · have hafter : TracedUntil (tracesAfter (traces (requests before ++ rs)) [r]) r.uid r.expiry :=
        huntil.after huid fun r' hr' => by rw [List.mem_singleton.mp hr']; exact hrle
      exact hafter
  intro later rest hlater t
  refine ⟨fun htr hte hq => ?_, fun hpassed => ?_⟩
  · rw [handleTraces_traced _ huid, traces_split before later hp]
    have htracedT := htraced.mono hte
    refine htracedT.after huid fun r' hr' => ?_
    rcases List.mem_append.mp hr' with hr' | hr'
    · have hsame := (mem_requestsOf (p := p) (r := r') (by rw [hp]; simp [hr'])).1
      have hrnow := (mem_requestsOf (p := p) (r := r) (by rw [hp]; simp)).1
      omega
    · obtain ⟨q, hqmem, heq, -⟩ := mem_requests hr'
      rw [heq]
      exact hq q hqmem
  · rw [← Bool.not_eq_true, handleTraces_traced _ huid]
    intro huntil
    obtain ⟨r', hr', heq, hle⟩ := tracedUntil_traces huntil huid
    have hpast := hpassed r' hr' heq
    have hsub : ∀ q ∈ before ++ p :: later, -2 ^ 31 ≤ q.1 := by
      intro q hq
      refine hnow q ?_
      rw [hlater, ← List.cons_append, ← List.append_assoc]
      exact List.mem_append_left _ hq
    have hstored := toI32_le (expiry_bounds hsub hr').1
    omega

theorem TakesEffect.hasSlot {rs' : List TraceRequest} (hnow : ∀ q ∈ before ++ p :: after, -2 ^ 31 ≤ q.1)
    (hp : requestsOf p = rs ++ r :: rs') (h : TakesEffect before p after rs r) : HasSlot before p after rs r := by
  have hmem : r ∈ requests (before ++ p :: after) := by
    rw [requests_split before after hp]
    exact List.mem_append_right _ List.mem_cons_self
  obtain ⟨hlow, hrle, huid⟩ := expiry_bounds hnow hmem
  have hnever : ∀ q ∈ ([] : List TracePkg), q.1 ≤ r.expiry := fun q hq => absurd hq List.not_mem_nil
  have hlast := (h [] after rfl r.expiry).1 hrle (Int.le_refl _) hnever
  rw [handleTraces_traced _ huid] at hlast
  by_cases hhigh : r.expiry < 2 ^ 31
  · by_cases hfree : FreeSlot (traces (requests before ++ rs)) r.now
    · exact .inl ⟨hfree, hhigh⟩
    · -- the packet changes nothing, since no slot is free at this moment
      have hsame : ∀ r' ∈ rs' ++ requests [], r'.now = r.now := by
        intro r' hr'
        have hr'' : r' ∈ requestsOf p := by
          rw [hp]
          refine List.mem_append_right _ (List.mem_cons_of_mem _ ?_)
          rcases List.mem_append.mp hr' with hr' | hr'
          · exact hr'
          · cases hr'
        have hrp : r ∈ requestsOf p := hp ▸ List.mem_append_right _ List.mem_cons_self
        rw [(mem_requestsOf hr'').1, (mem_requestsOf hrp).1]
      rw [traces_split before [] hp, addToTraceUidList_full hfree, tracesAfter_full hfree hsame] at hlast
      exact .inr hlast
  · -- no time that is stored is as late
    obtain ⟨r', -, -, hle⟩ := tracedUntil_traces hlast huid
    have hrange := (toI32_range r'.expiry).2
    omega

/-- Every request that comes while less than 8 other users are traced takes effect if and only if each
of them finds a slot that is free or has expired and its expiry fits into 32 bits, or the user is traced
as long already. -/
theorem requests_takeEffect_iff (pkgs : List TracePkg) (hnow : ∀ p ∈ pkgs, -2 ^ 31 ≤ p.1) :
    ForRequests pkgs TakesEffect ↔ ForRequests pkgs HasSlot := by
  constructor
  · intro h before p after rs r rs' hpkgs hp hothers
    subst hpkgs
    exact (h before p after rs r rs' rfl hp hothers).hasSlot hnow hp
  · intro h before p after rs r rs' hpkgs hp hothers
    subst hpkgs
    exact (h before p after rs r rs' rfl hp hothers).takesEffect hnow hp

/-- A packet with `n` requests for 100 seconds, all of them for the user 50000 + `u`. -/
def asks (n u : Nat) : Buf :=
  Buf.store (fun _ => 0) ([UInt8.ofNat (24 + 8 * n)] ++ List.replicate 22 0 ++ [UInt8.ofNat n] ++
    (List.replicate n [0, 0, 0xC3, UInt8.ofNat (0x50 + u), 0, 0, 0, 100]).flatten)

theorem requests_takeEffect_iff_sample : ForRequests [(1000, asks 1 2), (1050, asks 1 2)] TakesEffect ↔
    ForRequests [(1000, asks 1 2), (1050, asks 1 2)] HasSlot :=
  requests_takeEffect_iff _ (by decide)

/-- A request does not always take effect: eight requests for one user leave no slot for another. -/
theorem not_requests_takeEffect : ¬ ∀ pkgs : List TracePkg, (∀ p ∈ pkgs, -2 ^ 31 ≤ p.1) →
    ForRequests pkgs TakesEffect := by
  intro h
  have heffect := h [(1000, asks 8 1), (1000, asks 1 2)] (by decide) [(1000, asks 8 1)] (1000, asks 1 2) [] []
    ⟨1000, 50002, 100⟩ [] rfl (by decide +kernel) (by decide +kernel)
  have htraced := (heffect [] [] rfl 1000).1 (by decide) (by decide) fun q hq => absurd hq List.not_mem_nil
  exact absurd htraced (by decide +kernel)

end Taomee.Tlog
