import Taomee.Dirty.Lemmas.Stream

/-!
# The transfer of a file

However the packets of a file are cut into pieces on their way, the receive loop puts their blocks together,
inside its buffer.
-/

namespace Taomee.Dirty

/-! ## The stores of the loop -/

/-- A range of the buffer that a call is given to store in: where it begins, and its length. -/
structure Store where
  off : Nat
  len : Nat
  deriving DecidableEq

/-- The ranges that `recvRest` hands to `safe_tcp_recv_n`. -/
def recvRestStores : Nat → Buf → Nat → Nat → List Net → List Store
  | 0, _, _, _, _ => []
  | turns + 1, buf, p, rest, net =>
      let (buf, cur, net) := recvInto buf p rest net
      if cur = rest then [⟨p, rest⟩]
      else if 0 < cur then ⟨p, rest⟩ :: recvRestStores turns buf (p + cur.toNat) (rest - cur.toNat) net
      else [⟨p, rest⟩]

/-- The range that `recvHead` hands to `safe_tcp_recv_n`. -/
def recvHeadStores (r : RecvFile) : List Store :=
  if r.curRecvLen ≥ protoHeadLen then [] else [⟨r.curRecvLen.toNat, (protoHeadLen - r.curRecvLen).toNat⟩]

/-- `recvFile`, with all the ranges of the buffer that are stored in. -/
def recvFileLog (canCreate : Bool) : Nat → RecvFile → Option (Reply × List Store)
  | 0, _ => none
  | fuel + 1, r =>
      let stores := recvHeadStores r
      match recvHead r with
      | (_, _, _, false) => some (.failed r.newFile, stores)
      | (buf, curRecvLen, net, true) =>
          let packetLen := buf.load32 0
          if buf.load16 8 ≠ protoDirtyGetFile ∨ packetLen > dirtyFilePacketMaxLen then
            some (.failed r.newFile, stores)
          else
            let stores :=
              if curRecvLen < packetLen then
                stores ++ recvRestStores packetLen buf curRecvLen.toNat (packetLen - curRecvLen.toNat) net
              else stores
            let (buf, ok, net) :=
              if curRecvLen < packetLen then
                recvRest packetLen buf curRecvLen.toNat (packetLen - curRecvLen.toNat) net
              else (buf, true, net)
            let totalRecvLen := if curRecvLen < packetLen then (packetLen : Int) else curRecvLen
            let totallen := buf.load32 34
            let endable := buf.load32 38
            let blockLen := buf.load32 74
            if ok = false then some (.failed r.newFile, stores)
            else if endable ≠ 0 ∧ endable ≠ 1 then some (.failed r.newFile, stores)
            else if totallen = 0 then some (.nothingNew r.newFile, stores)
            else if r.fileLen ≠ 0 ∧ r.fileLen ≠ totallen then some (.failed r.newFile, stores)
            else
              let servrMd5 := r.servrMd5.getD (buf.slice 18 16)
              if packetLen ≠ dirtyFilePacketFixLen + blockLen then some (.failed r.newFile, stores)
              else if r.newFile = none ∧ canCreate = false then some (.failed r.newFile, stores)
              else
                let content := r.newFile.getD [] ++ buf.slice dirtyFilePacketFixLen blockLen
                if endable = 1 then some (.complete content servrMd5, stores)
                else
                  let overReadBytes := totalRecvLen - packetLen
                  let stores := if overReadBytes > 0 then stores ++ [⟨0, overReadBytes.toNat⟩] else stores
                  let buf : Buf := fun i =>
                    if (i : Int) < overReadBytes then buf (dirtyFilePacketFixLen + blockLen + i) else buf i
                  (recvFileLog canCreate fuel
                    { buf := buf, net := net, curRecvLen := overReadBytes, fileLen := totallen
                      newFile := some content, servrMd5 := some servrMd5 }).map fun result =>
                      (result.1, stores ++ result.2)

variable {canCreate : Bool} {r : RecvFile} {reply : Reply} {stores : List Store} {bytes : List UInt8}
  {net net' : List Net} {totallen : Nat}

/-- The ranges of `recvRest` all end where the packet does. -/
theorem recvRestStores_end (turns : Nat) : ∀ {buf : Buf} {p rest : Nat} {net : List Net} {s : Store},
    s ∈ recvRestStores turns buf p rest net → s.off + s.len = p + rest := by
  induction turns with
  | zero => exact fun h => absurd h List.not_mem_nil
  | succ turns ih =>
      intro buf p rest net s hs
      unfold recvRestStores recvInto at hs
      rcases hrecv : safeTcpRecvN rest [] net with ⟨got, cur, net'⟩
      rw [hrecv] at hs
      dsimp only at hs
      split at hs
      · obtain rfl := List.mem_singleton.mp hs
        rfl
      split at hs
      · rename_i hpos
        rcases List.mem_cons.mp hs with rfl | hs
        · rfl
        · obtain ⟨hcur, hle⟩ := safeTcpRecvN_length hrecv hpos
          have := ih hs
          omega
      · obtain rfl := List.mem_singleton.mp hs
        rfl

theorem recvFileLog_fst (canCreate : Bool) (fuel : Nat) : ∀ r : RecvFile,
    (recvFileLog canCreate fuel r).map Prod.fst = recvFile canCreate fuel r := by
  induction fuel with
  | zero => exact fun _ => rfl
  | succ fuel ih =>
      intro r
      unfold recvFileLog recvFile
      rcases recvHead r with ⟨buf, curRecvLen, net, ok⟩
      cases ok with
      | false => rfl
      | true =>
          dsimp only
          by_cases hhead : buf.load16 8 ≠ protoDirtyGetFile ∨ buf.load32 0 > dirtyFilePacketMaxLen
          · rw [if_pos hhead, if_pos hhead]
            rfl
          rw [if_neg hhead, if_neg hhead]
          generalize (if curRecvLen < ((buf.load32 0 : Nat) : Int) then
            recvRest (buf.load32 0) buf curRecvLen.toNat (buf.load32 0 - curRecvLen.toNat) net
            else (buf, true, net)) = rest
          obtain ⟨buf', ok, net'⟩ := rest
          dsimp only
          by_cases h1 : ok = false
          · rw [if_pos h1, if_pos h1]
            rfl
          rw [if_neg h1, if_neg h1]
          by_cases h2 : buf'.load32 38 ≠ 0 ∧ buf'.load32 38 ≠ 1
          · rw [if_pos h2, if_pos h2]
            rfl
          rw [if_neg h2, if_neg h2]
          by_cases h3 : buf'.load32 34 = 0
          · rw [if_pos h3, if_pos h3]
            rfl
          rw [if_neg h3, if_neg h3]
          by_cases h4 : r.fileLen ≠ 0 ∧ r.fileLen ≠ buf'.load32 34
          · rw [if_pos h4, if_pos h4]
            rfl
          rw [if_neg h4, if_neg h4]
          by_cases h5 : buf.load32 0 ≠ dirtyFilePacketFixLen + buf'.load32 74
          · rw [if_pos h5, if_pos h5]
            rfl
          rw [if_neg h5, if_neg h5]
          by_cases h6 : r.newFile = none ∧ canCreate = false
          · rw [if_pos h6, if_pos h6]
            rfl
          rw [if_neg h6, if_neg h6]
          by_cases h7 : buf'.load32 38 = 1
          · rw [if_pos h7, if_pos h7]
            rfl
          rw [if_neg h7, if_neg h7, Option.map_map, ← ih]
          rfl

/-- Between two packets a head is received at the beginning of the buffer. -/
theorem recvHead_start (h0 : r.curRecvLen = 0) : recvHeadStores r = [⟨0, protoHeadLen⟩] ∧
    ((recvHead r).2.2.2 = true → (recvHead r).2.1 = protoHeadLen) := by
  unfold recvHeadStores recvHead recvInto
  rw [h0, if_neg (by decide), if_neg (by decide)]
  refine ⟨rfl, fun hok => ?_⟩
  dsimp only at hok ⊢
  rw [show (((protoHeadLen : Nat) : Int) - 0).toNat = protoHeadLen from rfl] at hok ⊢
  rcases hrecv : safeTcpRecvN protoHeadLen [] r.net with ⟨got, n, net⟩
  rw [hrecv] at hok
  dsimp only at hok ⊢
  have hn := of_decide_eq_true hok
  obtain ⟨hcount, hle⟩ := safeTcpRecvN_length hrecv (by unfold protoHeadLen at hn; omega)
  omega

/-- Where a turn stops, its ranges are the last ones. -/
theorem stores_of_ite {c : Prop} [Decidable c] {reply' : Reply} {turn : List Store} {next : Option (Reply × List Store)}
    (h : (if c then some (reply', turn) else next) = some (reply, stores)) :
    turn = stores ∨ (¬ c ∧ next = some (reply, stores)) := by
  by_cases hc : c
  · rw [if_pos hc] at h
    exact .inl (Prod.mk.inj (Option.some.inj h)).2
  · rw [if_neg hc] at h
    exact .inr ⟨hc, h⟩

/-- The ranges of a turn: the head, and the rest up to the announced length. -/
theorem turnStores_within {buf : Buf} {curRecvLen : Int} (hcur : curRecvLen = protoHeadLen)
    (hmax : buf.load32 0 ≤ dirtyFilePacketMaxLen) :
    ∀ s ∈ (if curRecvLen < ((buf.load32 0 : Nat) : Int) then
      [(⟨0, protoHeadLen⟩ : Store)] ++ recvRestStores (buf.load32 0) buf curRecvLen.toNat
        (buf.load32 0 - curRecvLen.toNat) net else [⟨0, protoHeadLen⟩]), s.off + s.len ≤ 8192 := by
  have hfirst : ∀ s ∈ [(⟨0, protoHeadLen⟩ : Store)], s.off + s.len ≤ 8192 := by decide
  intro s hs
  split at hs
  · rename_i hlt
    rcases List.mem_append.mp hs with hs | hs
    · exact hfirst s hs
    · have hend := recvRestStores_end _ hs
      have hmax : buf.load32 0 ≤ 4174 := hmax
      omega
  · exact hfirst s hs

/-- On any stream, the loop stores inside its 8192 bytes. -/
theorem recvFileLog_within (fuel : Nat) : ∀ {r : RecvFile} {reply : Reply} {stores : List Store}, r.curRecvLen = 0 →
    recvFileLog canCreate fuel r = some (reply, stores) → ∀ s ∈ stores, s.off + s.len ≤ 8192 := by
  induction fuel with
  | zero =>
      intro r reply stores _ h
      cases h
  | succ fuel ih =>
      intro r reply stores h0 h
      obtain ⟨hstores, hcur⟩ := recvHead_start h0
      unfold recvFileLog at h
      rw [hstores] at h
      rcases hrecv : recvHead r with ⟨buf, curRecvLen, net, ok⟩
      rw [hrecv] at h hcur
      have hfirst : ∀ s ∈ [(⟨0, protoHeadLen⟩ : Store)], s.off + s.len ≤ 8192 := by decide
      cases ok with
      | false =>
          obtain ⟨-, rfl⟩ := Prod.mk.inj (Option.some.inj h)
          exact hfirst
      | true =>
          have hcur : curRecvLen = protoHeadLen := hcur rfl
          dsimp only at h
          rcases stores_of_ite h with rfl | ⟨hhead, h⟩
          · exact hfirst
          have hturn := @turnStores_within net buf curRecvLen hcur (Nat.not_lt.mp fun hgt => hhead (.inr hgt))
          have htotal : dirtyFilePacketFixLen ≤ buf.load32 0 →
              (if curRecvLen < ((buf.load32 0 : Nat) : Int) then ((buf.load32 0 : Nat) : Int) else curRecvLen) -
                ((buf.load32 0 : Nat) : Int) = 0 := by
            intro hfix
            unfold dirtyFilePacketFixLen at hfix
            unfold protoHeadLen at hcur
            rw [if_pos (by omega)]
            omega
          generalize (if curRecvLen < ((buf.load32 0 : Nat) : Int) then
              [(⟨0, protoHeadLen⟩ : Store)] ++ recvRestStores (buf.load32 0) buf curRecvLen.toNat
                (buf.load32 0 - curRecvLen.toNat) net else [⟨0, protoHeadLen⟩]) = turn at h hturn
          generalize (if curRecvLen < ((buf.load32 0 : Nat) : Int) then
            recvRest (buf.load32 0) buf curRecvLen.toNat (buf.load32 0 - curRecvLen.toNat) net
            else (buf, true, net)) = rest at h
          generalize (if curRecvLen < ((buf.load32 0 : Nat) : Int) then ((buf.load32 0 : Nat) : Int)
            else curRecvLen) = total at h htotal
          obtain ⟨buf', ok, net'⟩ := rest
          dsimp only at h
          rcases stores_of_ite h with rfl | ⟨-, h⟩
          · exact hturn
          rcases stores_of_ite h with rfl | ⟨-, h⟩
          · exact hturn
          rcases stores_of_ite h with rfl | ⟨-, h⟩
          · exact hturn
          rcases stores_of_ite h with rfl | ⟨-, h⟩
          · exact hturn
          rcases stores_of_ite h with rfl | ⟨hlen, h⟩
          · exact hturn
          rcases stores_of_ite h with rfl | ⟨-, h⟩
          · exact hturn
          rcases stores_of_ite h with rfl | ⟨-, h⟩
          · exact hturn
          -- nothing has been read too much, so that nothing is moved
          rw [htotal (by omega), if_neg (by decide)] at h
          obtain ⟨⟨reply', stores'⟩, hnext, heq⟩ := Option.map_eq_some_iff.mp h
          obtain ⟨rfl, rfl⟩ := Prod.mk.inj heq
          intro s hs
          rcases List.mem_append.mp hs with hs | hs
          · exact hturn s hs
          · exact ih rfl hnext s hs

/-! ## What the server sends -/

/-- A packet of the file in the right form. -/
structure FilePacket (totallen endable : Nat) (bytes : List UInt8) : Prop where
  cmd : (Buf.ofList bytes).load16 8 = protoDirtyGetFile
  len : (Buf.ofList bytes).load32 0 = bytes.length
  blockLen : bytes.length = dirtyFilePacketFixLen + (Buf.ofList bytes).load32 74
  max : bytes.length ≤ dirtyFilePacketMaxLen
  totallen : (Buf.ofList bytes).load32 34 = totallen
  endable : (Buf.ofList bytes).load32 38 = endable

/-- The block in a packet. -/
def blockOf (bytes : List UInt8) : List UInt8 := bytes.drop dirtyFilePacketFixLen

/-- The bytes come one after the other, calls interrupted by signals aside. -/
inductive Whole : List UInt8 → List Net → Prop
  | nil : Whole [] []
  | byte {c : UInt8} {bytes : List UInt8} {net : List Net} : Whole bytes net → Whole (c :: bytes) (.byte c :: net)
  | intr {bytes : List UInt8} {net : List Net} : Whole bytes net → Whole bytes (.intr :: net)

/-- The bytes come in pieces that are not empty, with a time-out between two of them. -/
inductive Pieces : List UInt8 → List Net → Prop
  | last {bytes : List UInt8} {net : List Net} : bytes ≠ [] → Whole bytes net → Pieces bytes net
  | more {piece bytes : List UInt8} {net net' : List Net} : piece ≠ [] → Whole piece net → Pieces bytes net' →
      Pieces (piece ++ bytes) (net ++ .again :: net')

/-- The packet arrives, its head whole and its body in pieces. -/
inductive Arrives : List UInt8 → List Net → Prop
  | intro {bytes : List UInt8} {head body : List Net} : Whole (bytes.take protoHeadLen) head →
      Pieces (bytes.drop protoHeadLen) body → Arrives bytes (head ++ body)

/-- The packets of a file arrive, `endable` being 1 in the last of them; `behind` is whatever comes then. -/
inductive Transfer (totallen : Nat) : List (List UInt8) → List Net → Prop
  | last {bytes : List UInt8} {net : List Net} (behind : List Net) : FilePacket totallen 1 bytes → Arrives bytes net →
      Transfer totallen [bytes] (net ++ behind)
  | next {bytes : List UInt8} {packets : List (List UInt8)} {net net' : List Net} : FilePacket totallen 0 bytes →
      Arrives bytes net → Transfer totallen packets net' → Transfer totallen (bytes :: packets) (net ++ net')

/-! ## Receiving a packet -/

theorem whole_nil (h : Whole [] net) : ∃ k, net = List.replicate k .intr := by
  generalize hb : ([] : List UInt8) = bytes at h
  induction h with
  | nil => exact ⟨0, rfl⟩
  | byte => cases hb
  | intr _ ih =>
      obtain ⟨k, rfl⟩ := ih hb
      exact ⟨k + 1, rfl⟩

theorem safeTcpRecvN_done {total : Nat} {got : List UInt8} (h : got.length = total) (net : List Net) :
    safeTcpRecvN total got net = (got, (total : Int), net) := by
  cases net with
  | nil =>
      unfold safeTcpRecvN
      rw [if_neg (by omega), h]
  | cons e net =>
      unfold safeTcpRecvN
      rw [if_neg (by omega), h]

/-- All the bytes asked for come without a time-out; signals behind them are left. -/
theorem safeTcpRecvN_whole {total : Nat} (h : Whole bytes net) : ∀ {got : List UInt8} (rest : List Net),
    got.length + bytes.length = total →
    ∃ k, safeTcpRecvN total got (net ++ rest) =
      (got ++ bytes, (total : Int), List.replicate k .intr ++ rest) := by
  induction h with
  | nil =>
      intro got rest hlen
      refine ⟨0, ?_⟩
      rw [List.append_nil]
      exact safeTcpRecvN_done hlen rest
  | @byte c bytes net _ ih =>
      intro got rest hlen
      rw [List.length_cons] at hlen
      obtain ⟨k, hk⟩ := @ih (got ++ [c]) rest (by rw [List.length_append, List.length_singleton]; omega)
      refine ⟨k, ?_⟩
      rw [List.append_assoc] at hk
      rw [List.cons_append, safeTcpRecvN, if_pos (by omega)]
      exact hk
  | @intr bytes net hwhole ih =>
      intro got rest hlen
      cases bytes with
      | nil =>
          obtain ⟨k, rfl⟩ := whole_nil hwhole
          refine ⟨k + 1, ?_⟩
          rw [List.append_nil]
          exact safeTcpRecvN_done hlen _
      | cons c bytes =>
          obtain ⟨k, hk⟩ := ih rest hlen
          refine ⟨k, ?_⟩
          rw [List.length_cons] at hlen
          rw [List.cons_append, safeTcpRecvN, if_pos (by omega)]
          exact hk

/-- Some of the bytes asked for come before a time-out. -/
theorem safeTcpRecvN_part {total : Nat} (h : Whole bytes net) : ∀ {got : List UInt8} (rest : List Net),
    got.length + bytes.length < total →
    safeTcpRecvN total got (net ++ .again :: rest) =
      (got ++ bytes, ((got ++ bytes).length : Int), rest) := by
  induction h with
  | nil =>
      intro got rest hlen
      rw [List.length_nil] at hlen
      rw [List.append_nil, List.nil_append, safeTcpRecvN, if_pos (by omega)]
  | @byte c bytes net _ ih =>
      intro got rest hlen
      rw [List.length_cons] at hlen
      have := @ih (got ++ [c]) rest (by rw [List.length_append, List.length_singleton]; omega)
      rw [List.append_assoc] at this
      rw [List.cons_append, safeTcpRecvN, if_pos (by omega)]
      exact this
  | intr _ ih =>
      intro got rest hlen
      rw [List.cons_append, safeTcpRecvN, if_pos (by omega)]
      exact ih rest hlen

theorem recvBytes_pieces (h : Pieces bytes net) : ∀ {turns : Nat} (rest : List Net), bytes.length ≤ turns →
    ∃ k, recvBytes turns bytes.length (net ++ rest) = (bytes, true, List.replicate k .intr ++ rest) := by
  induction h with
  | @last bytes net hne hwhole =>
      intro turns rest hle
      have hpos := List.length_pos_of_ne_nil hne
      obtain ⟨turns, rfl⟩ := Nat.exists_eq_succ_of_ne_zero (by omega : turns ≠ 0)
      obtain ⟨k, hk⟩ := @safeTcpRecvN_whole bytes net bytes.length hwhole [] rest (by simp)
      refine ⟨k, ?_⟩
      unfold recvBytes
      rw [hk]
      exact if_pos rfl
  | @more piece bytes net net' hne hwhole hpieces ih =>
      intro turns rest hle
      have hpos := List.length_pos_of_ne_nil hne
      have hpos' : 0 < bytes.length := by
        cases hpieces with
        | last hne' _ => exact List.length_pos_of_ne_nil hne'
        | more hne' _ _ =>
            have := List.length_pos_of_ne_nil hne'
            rw [List.length_append]
            omega
      rw [List.length_append] at hle
      obtain ⟨turns, rfl⟩ := Nat.exists_eq_succ_of_ne_zero (by omega : turns ≠ 0)
      have hrecv := @safeTcpRecvN_part piece net (piece ++ bytes).length hwhole [] (net' ++ rest)
        (by rw [List.length_append, List.length_nil]; omega)
      obtain ⟨k, hk⟩ := @ih turns rest (by omega)
      refine ⟨k, ?_⟩
      rw [List.append_assoc, List.cons_append]
      unfold recvBytes
      rw [hrecv, List.nil_append, List.length_append]
      dsimp only
      rw [if_neg (by omega), if_pos (by omega), Int.toNat_natCast, Nat.add_sub_cancel_left, hk]

theorem Whole.intrs (h : Whole bytes net) (k : Nat) : Whole bytes (List.replicate k .intr ++ net) := by
  induction k with
  | zero => exact h
  | succ k ih => exact .intr ih

theorem Pieces.intrs (h : Pieces bytes net) (k : Nat) : Pieces bytes (List.replicate k .intr ++ net) := by
  cases h with
  | last hne hwhole => exact .last hne (hwhole.intrs k)
  | more hne hwhole hpieces =>
      rw [← List.append_assoc]
      exact .more hne (hwhole.intrs k) hpieces

theorem Arrives.intrs (h : Arrives bytes net) (k : Nat) : Arrives bytes (List.replicate k .intr ++ net) := by
  cases h with
  | intro hhead hbody =>
      rw [← List.append_assoc]
      exact .intro (hhead.intrs k) hbody

/-- A packet that arrives is the next packet; signals behind it are left. -/
theorem nextPacket_arrives {endable : Nat} (hpacket : FilePacket totallen endable bytes) (h : Arrives bytes net)
    (rest : List Net) : ∃ k, nextPacket (net ++ rest) = some (bytes, List.replicate k .intr ++ rest) := by
  cases h with
  | @intro head body hhead hbody =>
      have hfix : dirtyFilePacketFixLen ≤ bytes.length := Nat.le.intro hpacket.blockLen.symm
      have hmax := hpacket.max
      unfold dirtyFilePacketFixLen at hfix
      have htake : (bytes.take protoHeadLen).length = protoHeadLen := by
        rw [List.length_take]
        unfold protoHeadLen
        omega
      have hlen : (Buf.ofList (bytes.take protoHeadLen)).load32 0 = bytes.length := by
        have := @load32_ofList_append (bytes.take protoHeadLen) (bytes.drop protoHeadLen) 0 (by rw [htake]; decide)
        rw [← this, List.take_append_drop]
        exact hpacket.len
      have hcmd : (Buf.ofList (bytes.take protoHeadLen)).load16 8 = protoDirtyGetFile := by
        rw [← hpacket.cmd]
        unfold Buf.load16 Buf.ofList protoHeadLen
        simp
      obtain ⟨k, hk⟩ := @safeTcpRecvN_whole _ _ protoHeadLen hhead [] (body ++ rest) (by rw [htake]; rfl)
      obtain ⟨k', hk'⟩ := @recvBytes_pieces _ _ (hbody.intrs k) bytes.length rest (by simp)
      have hrest : bytes.length - protoHeadLen = (bytes.drop protoHeadLen).length := by rw [List.length_drop]
      refine ⟨k', ?_⟩
      rw [List.append_assoc] at hk'
      unfold nextPacket
      rw [List.append_assoc, hk, List.nil_append]
      dsimp only
      rw [if_neg (by omega), hcmd, hlen, if_neg (by omega), if_neg (by unfold protoHeadLen; omega), hrest, hk']
      dsimp only
      rw [if_pos rfl, List.take_append_drop]

/-! ## The whole file -/

/-- A packet of the file that the loop takes. -/
theorem recvFile_takes {endable : Nat} (fuel : Nat) (h0 : r.curRecvLen = 0) (hfile : r.fileLen = 0 ∨ r.fileLen = totallen)
    (htotal : totallen ≠ 0) (hpacket : FilePacket totallen endable bytes)
    (hnext : nextPacket r.net = some (bytes, net')) :
    (endable = 1 → recvFile true (fuel + 1) r = some (.complete (r.newFile.getD [] ++ blockOf bytes)
        (r.servrMd5.getD ((Buf.ofList bytes).slice 18 16)))) ∧
      (endable = 0 → recvFile true (fuel + 1) r = recvFile true fuel
        { buf := r.buf.write 0 bytes, net := net', curRecvLen := 0, fileLen := totallen
          newFile := some (r.newFile.getD [] ++ blockOf bytes)
          servrMd5 := some (r.servrMd5.getD ((Buf.ofList bytes).slice 18 16)) }) := by
  have hp : r.packet = some (r.packetOf bytes net') := packet_of_next h0 hnext
  obtain ⟨hT, hE, hB, hD⟩ := packetOf_fields r net' (Nat.le.intro hpacket.blockLen.symm)
  have hblock : (r.packetOf bytes net').block = blockOf bytes := packetOf_block r net' hpacket.blockLen
  rw [hpacket.totallen] at hT
  rw [hpacket.endable] at hE
  have haccept : r.Accepts true (r.packetOf bytes net') := by
    refine ⟨hT ▸ htotal, hT ▸ hfile, ?_, .inr rfl⟩
    rw [hB]
    exact hpacket.len.trans hpacket.blockLen
  rw [recvFile_packet fuel hp, hE, hT, if_neg htotal, if_neg (not_not_intro haccept), hblock, hD,
    afterPacket_packetOf r net' hpacket.len.symm, hT, hblock, hD]
  constructor
  · rintro rfl
    rw [if_neg (by decide), if_pos rfl]
  · rintro rfl
    rw [if_neg (by decide), if_neg (by decide)]

/-- The induction is on the packets; signals may be left from the packet before. -/
theorem Transfer.recvFile {packets : List (List UInt8)} (h : Transfer totallen packets net) (htotal : totallen ≠ 0) :
    ∀ (k : Nat) (r : RecvFile), r.net = List.replicate k .intr ++ net → r.curRecvLen = 0 →
    r.fileLen = 0 ∨ r.fileLen = totallen →
    ∃ fuel digest, recvFile true fuel r = some (.complete (r.newFile.getD [] ++ packets.flatMap blockOf) digest) := by
  induction h with
  | @last bytes net behind hpacket harrives =>
      intro k r hnet h0 hfile
      obtain ⟨k', hnext⟩ := nextPacket_arrives hpacket (harrives.intrs k) behind
      rw [List.append_assoc, ← hnet] at hnext
      refine ⟨1, r.servrMd5.getD ((Buf.ofList bytes).slice 18 16), ((recvFile_takes 0 h0 hfile htotal hpacket hnext).1 rfl).trans ?_⟩
      rw [List.flatMap_singleton]
  | @next bytes packets net net' hpacket harrives _ ih =>
      intro k r hnet h0 hfile
      obtain ⟨k', hnext⟩ := nextPacket_arrives hpacket (harrives.intrs k) net'
      rw [List.append_assoc, ← hnet] at hnext
      obtain ⟨fuel, digest, hrun⟩ := ih k' { buf := r.buf.write 0 bytes, net := List.replicate k' .intr ++ net'
                                             curRecvLen := 0, fileLen := totallen
                                             newFile := some (r.newFile.getD [] ++ blockOf bytes)
                                             servrMd5 := some (r.servrMd5.getD ((Buf.ofList bytes).slice 18 16)) }
        rfl rfl (.inr rfl)
      refine ⟨fuel + 1, digest, ((recvFile_takes fuel h0 hfile htotal hpacket hnext).2 rfl).trans (hrun.trans ?_)⟩
      rw [List.flatMap_cons, ← List.append_assoc]
      rfl

/-- The locals of the receive loop at its start. -/
def transferStart (buf : Buf) (net : List Net) : RecvFile where
  buf := buf
  net := net
  curRecvLen := 0
  fileLen := 0
  newFile := none
  servrMd5 := none

/-- The receive loop ends with the whole file: the blocks one after the other. It stores inside its buffer. -/
theorem recvFile_transfer (totallen : Nat) (htotal : totallen ≠ 0) (packets : List (List UInt8)) (net : List Net)
    (h : Transfer totallen packets net) (buf : Buf) : ∃ fuel digest stores,
    recvFileLog true fuel (transferStart buf net) = some (.complete (packets.flatMap blockOf) digest, stores) ∧
      ∀ s ∈ stores, s.off + s.len ≤ 8192 := by
  obtain ⟨fuel, digest, hrun⟩ := h.recvFile htotal 0 (transferStart buf net) rfl rfl (.inl rfl)
  rw [← recvFileLog_fst] at hrun
  obtain ⟨⟨reply, stores⟩, hlog, rfl⟩ := Option.map_eq_some_iff.mp hrun
  exact ⟨fuel, digest, stores, hlog, recvFileLog_within fuel rfl hlog⟩

theorem whole_map (bytes : List UInt8) : Whole bytes (bytes.map .byte) := by
  induction bytes with
  | nil => exact .nil
  | cons c bytes ih => exact .byte ih

/-- A packet with a block of one byte, of a file of two. -/
def packetSample (endable block : UInt8) : List UInt8 :=
  [79, 0, 0, 0, 0, 0, 0, 0, 0xEA, 0xFD, 0, 0, 0, 0, 0, 0, 0, 0] ++ List.replicate 16 1 ++ [2, 0, 0, 0, endable, 0, 0, 0] ++
    List.replicate 32 0 ++ [1, 0, 0, 0, block]

/-- The body of the first packet comes in two pieces, and a signal comes before the second packet. -/
def transferSample : List Net :=
  (((packetSample 0 0x61).take 18).map .byte ++
    (((packetSample 0 0x61).drop 18).take 20).map .byte ++ .again :: ((packetSample 0 0x61).drop 38).map .byte) ++
    ((.intr :: ((packetSample 1 0x62).take 18).map .byte ++ ((packetSample 1 0x62).drop 18).map .byte) ++ [])

theorem transfer_sample : Transfer 2 [packetSample 0 0x61, packetSample 1 0x62] transferSample := by
  refine .next ⟨by decide +kernel, by decide +kernel, by decide +kernel, by decide +kernel, by decide +kernel,
    by decide +kernel⟩ ?_ (.last [] ⟨by decide +kernel, by decide +kernel, by decide +kernel, by decide +kernel,
    by decide +kernel, by decide +kernel⟩ (.intro (.intr (whole_map _)) (.last (by decide) (whole_map _))))
  rw [List.append_assoc]
  have hpieces : Pieces (((packetSample 0 0x61).drop 18).take 20 ++ (packetSample 0 0x61).drop 38)
      ((((packetSample 0 0x61).drop 18).take 20).map .byte ++ .again :: ((packetSample 0 0x61).drop 38).map .byte) :=
    .more (by decide) (whole_map _) (.last (by decide) (whole_map _))
  exact .intro (whole_map _) hpieces

theorem recvFile_transfer_two : ∃ fuel digest stores,
    recvFileLog true fuel (transferStart (fun _ => 0) transferSample) = some (.complete [0x61, 0x62] digest, stores) ∧
      ∀ s ∈ stores, s.off + s.len ≤ 8192 :=
  recvFile_transfer 2 (by decide) [packetSample 0 0x61, packetSample 1 0x62] transferSample transfer_sample (fun _ => 0)

end Taomee.Dirty
