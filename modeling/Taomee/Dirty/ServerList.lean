import Taomee.Dirty.Update
import Taomee.Lib.Inet

/-!
# The list of servers (tm_dirty/tm_dirty.c)

`tm_dirty_daemon` copies the characters of an address list into a buffer and takes it apart into the arrays
of the servers. The stores are written down, so that one can tell whether they stay inside. The two array
bounds are never looked at; what keeps the stores inside is the length of the list.
-/

namespace Taomee.Dirty

/-- A store of the parsing code: in `buf`, in a row of `tm_dirty_server_ip`, in `tm_dirty_server_port`. -/
inductive AddrStore
  | buf (i : Nat)
  | ip (row off len : Nat)
  | port (i : Nat)

/-- The store is inside of `char buf[1024]`, `char tm_dirty_server_ip[16][16]`, `uint16_t tm_dirty_server_port[16]`. -/
def AddrStore.Inside : AddrStore → Prop
  | .buf i => i < 1024
  | .ip row off len => row < 16 ∧ off + len ≤ 16
  | .port i => i < 16

/-- The two arrays: the strings in `tm_dirty_server_ip`, and `tm_dirty_server_port`. -/
structure ServerArrays where
  ip : Nat → List UInt8
  port : Nat → Nat

def isAddrChar (c : UInt8) : Bool := (0x30 ≤ c && c ≤ 0x39) || c = colon || c = semicolon || c = dot

/-- The loop that copies into `buf`, from `buf[i]` on: the characters copied, and the stores. -/
def copyAddr : Nat → List UInt8 → List UInt8 × List AddrStore
  | _, [] => ([], [])
  | i, c :: str =>
      if c ≠ 0 ∧ i < 1024 then
        if isAddrChar c then
          let (text, stores) := copyAddr (i + 1) str
          (c :: text, .buf i :: stores)
        else copyAddr i str
      else ([], [])

/-- `is_legal_port`. -/
def isLegalPort (port : Nat) : Bool := 0 < port && port < 65536

/-- The loop over the servers, from the `i`-th on: the number of servers, if nothing is wrong with them, and
the stores. -/
def storeServers (isLegalIp : List UInt8 → Bool) : Nat → Nat → List UInt8 → ServerArrays →
    Option Nat × ServerArrays × List AddrStore
  | 0, i, _, a => (some i, a, [])
  | turns + 1, i, str, a =>
      if colon ∈ str then
        let ip := str.takeWhile fun c => c ≠ colon
        let behind := (str.dropWhile fun c => c ≠ colon).drop 1
        if ip.length > 15 then (none, a, [])
        else
          let a := { a with ip := fun k => if k = i then ip else a.ip k }
          let stores : List AddrStore := [.ip i 0 ip.length, .ip i ip.length 1]
          let (a, stores) : ServerArrays × List AddrStore :=
            if behind ≠ [] then
              ({ a with port := fun k => if k = i then parsePort behind else a.port k }, stores ++ [.port i])
            else (a, stores)
          if isLegalIp (a.ip i) && isLegalPort (a.port i) then
            if semicolon ∈ behind then
              let (count, a, more) :=
                storeServers isLegalIp turns (i + 1) ((behind.dropWhile fun c => c ≠ semicolon).drop 1) a
              (count, a, stores ++ more)
            else (some (i + 1), a, stores)
          else (none, a, stores)
      else (some i, a, [])

/-- The part of `tm_dirty_daemon` that reads `server_addr`: `tm_dirty_valid_server_count` unless the call
fails, the arrays and the stores. -/
def tmDirtyDaemonServers (isLegalIp : List UInt8 → Bool) (a : ServerArrays) (serverAddr : Option (List UInt8)) :
    Option Nat × ServerArrays × List AddrStore :=
  match serverAddr with
  | none => (none, a, [])
  | some str =>
      let (text, copied) := copyAddr 0 str
      let copied := copied ++ [.buf text.length]
      let (count, a, stores) := storeServers isLegalIp text.length 0 text a
      (if count = some 0 then none else count, a, copied ++ stores)

/-- The same lines in `tm_dirty_daemon_with_named_mmap`. -/
def tmDirtyDaemonWithNamedMmapServers (isLegalIp : List UInt8 → Bool) (a : ServerArrays)
    (serverAddr : Option (List UInt8)) : Option Nat × ServerArrays × List AddrStore :=
  tmDirtyDaemonServers isLegalIp a serverAddr

/-- All stores are inside, and a call that does not fail has found one to sixteen servers. -/
structure Bounded (result : Option Nat × ServerArrays × List AddrStore) : Prop where
  stores : ∀ w ∈ result.2.2, w.Inside
  count : ∀ n, result.1 = some n → 1 ≤ n ∧ n ≤ 16

/-! ## How much of a list is read -/

/-- The characters that are looked at. -/
def addrText (str : List UInt8) : List UInt8 := (str.takeWhile fun c => c ≠ 0).filter isAddrChar

/-- After `k` servers that are taken, each with a semicolon behind it, there is one more whose address is
short enough to be stored. -/
def MoreThan (isLegalIp : List UInt8 → Bool) : Nat → List UInt8 → Prop
  | 0, str => colon ∈ str ∧ (str.takeWhile fun c => c ≠ colon).length ≤ 15
  | k + 1, str =>
      let ip := str.takeWhile fun c => c ≠ colon
      let behind := (str.dropWhile fun c => c ≠ colon).drop 1
      colon ∈ str ∧ ip.length ≤ 15 ∧ isLegalIp ip = true ∧ isLegalPort (parsePort behind) = true ∧ semicolon ∈ behind ∧
        MoreThan isLegalIp k ((behind.dropWhile fun c => c ≠ semicolon).drop 1)

variable {isLegalIp : List UInt8 → Bool} {str : List UInt8} {a : ServerArrays} {i turns : Nat}

/-- The copy takes the characters of an address list as long as there is room, and stores them one behind
the other. -/
theorem copyAddr_spec (str : List UInt8) : ∀ {i : Nat}, i ≤ 1024 →
    (copyAddr i str).1 = (addrText str).take (1024 - i) ∧ ∀ w ∈ (copyAddr i str).2, w.Inside := by
  induction str with
  | nil =>
      intro i _
      exact ⟨by simp [copyAddr, addrText], fun w hw => absurd hw List.not_mem_nil⟩
  | cons c str ih =>
      intro i hi
      unfold copyAddr
      by_cases h0 : c = 0
      · rw [if_neg fun h => h.1 h0]
        refine ⟨?_, fun w hw => absurd hw List.not_mem_nil⟩
        simp [addrText, h0]
      by_cases hroom : i < 1024
      · rw [if_pos ⟨h0, hroom⟩]
        by_cases hc : isAddrChar c = true
        · rw [if_pos hc]
          obtain ⟨htext, hin⟩ := @ih (i + 1) hroom
          refine ⟨?_, fun w hw => ?_⟩
          · have haddr : addrText (c :: str) = c :: addrText str := by
              unfold addrText
              rw [List.takeWhile_cons_of_pos (by simpa using h0), List.filter_cons_of_pos hc]
            rw [haddr, show 1024 - i = 1024 - (i + 1) + 1 by omega, List.take_succ_cons, ← htext]
          · rcases List.mem_cons.mp hw with rfl | hw
            · exact hroom
            · exact hin w hw
        · rw [if_neg hc]
          have haddr : addrText (c :: str) = addrText str := by
            unfold addrText
            rw [List.takeWhile_cons_of_pos (by simpa using h0), List.filter_cons_of_neg hc]
          rw [haddr]
          exact ih hi
      · rw [if_neg fun h => hroom h.2]
        refine ⟨?_, fun w hw => absurd hw List.not_mem_nil⟩
        rw [show 1024 - i = 0 by omega, List.take_zero]

/-! ## One server -/

/-- The text before the first colon. -/
def ipText (str : List UInt8) : List UInt8 := str.takeWhile fun c => c ≠ colon

/-- What is behind the first colon. -/
def behindColon (str : List UInt8) : List UInt8 := (str.dropWhile fun c => c ≠ colon).drop 1

/-- What is behind the first semicolon. -/
def behindSemicolon (str : List UInt8) : List UInt8 := (str.dropWhile fun c => c ≠ semicolon).drop 1

/-- The port that the `i`-th server gets. -/
def serverPort (a : ServerArrays) (i : Nat) (str : List UInt8) : Nat :=
  if behindColon str ≠ [] then parsePort (behindColon str) else a.port i

/-- The arrays with the `i`-th server in them. -/
def ServerArrays.put (a : ServerArrays) (i : Nat) (ip : List UInt8) (port : Nat) : ServerArrays where
  ip := fun k => if k = i then ip else a.ip k
  port := fun k => if k = i then port else a.port k

/-- The stores for the `i`-th server. -/
def serverStores (i : Nat) (str : List UInt8) : List AddrStore :=
  [.ip i 0 (ipText str).length, .ip i (ipText str).length 1] ++ if behindColon str ≠ [] then [.port i] else []

theorem storeServers_none (h : colon ∉ str) (turns i : Nat) (a : ServerArrays) :
    storeServers isLegalIp turns i str a = (some i, a, []) := by
  cases turns with
  | zero => rfl
  | succ turns => exact if_neg h

theorem storeServers_long (h : colon ∈ str) (hlong : (ipText str).length > 15) (turns i : Nat) (a : ServerArrays) :
    storeServers isLegalIp (turns + 1) i str a = (none, a, []) := by
  unfold storeServers
  rw [if_pos h]
  exact if_pos hlong

theorem storeServers_server (h : colon ∈ str) (hshort : (ipText str).length ≤ 15) (turns i : Nat) (a : ServerArrays) :
    storeServers isLegalIp (turns + 1) i str a =
      if isLegalIp (ipText str) && isLegalPort (serverPort a i str) then
        if semicolon ∈ behindColon str then
          ((storeServers isLegalIp turns (i + 1) (behindSemicolon (behindColon str))
              (a.put i (ipText str) (serverPort a i str))).1,
            (storeServers isLegalIp turns (i + 1) (behindSemicolon (behindColon str))
              (a.put i (ipText str) (serverPort a i str))).2.1,
            serverStores i str ++ (storeServers isLegalIp turns (i + 1) (behindSemicolon (behindColon str))
              (a.put i (ipText str) (serverPort a i str))).2.2)
        else (some (i + 1), a.put i (ipText str) (serverPort a i str), serverStores i str)
      else (none, a.put i (ipText str) (serverPort a i str), serverStores i str) := by
  have hput : (if behindColon str ≠ [] then
      (({ ip := fun k => if k = i then ipText str else a.ip k
          port := fun k => if k = i then parsePort (behindColon str) else a.port k } : ServerArrays),
        [AddrStore.ip i 0 (ipText str).length, .ip i (ipText str).length 1] ++ [.port i])
      else ({ a with ip := fun k => if k = i then ipText str else a.ip k },
        [AddrStore.ip i 0 (ipText str).length, .ip i (ipText str).length 1])) =
      (a.put i (ipText str) (serverPort a i str), serverStores i str) := by
    unfold serverPort serverStores ServerArrays.put
    by_cases hb : behindColon str ≠ []
    · rw [if_pos hb, if_pos hb, if_pos hb]
    · have hsame : (fun k => if k = i then a.port i else a.port k) = a.port := by
        funext k
        split
        · rename_i hk
          rw [hk]
        · rfl
      rw [if_neg hb, if_neg hb, if_neg hb, hsame, List.append_nil]
  have hip : (a.put i (ipText str) (serverPort a i str)).ip i = ipText str := if_pos rfl
  have hport : (a.put i (ipText str) (serverPort a i str)).port i = serverPort a i str := if_pos rfl
  rw [storeServers, if_pos h]
  dsimp only
  rw [show (str.takeWhile fun c => decide (c ≠ colon)) = ipText str from rfl,
    show (str.dropWhile fun c => decide (c ≠ colon)).drop 1 = behindColon str from rfl,
    if_neg (Nat.not_lt.mpr hshort), hput, hip, hport]
  rfl

/-- Behind the semicolon of a server less is left. -/
theorem behindSemicolon_length (h : colon ∈ str) :
    (behindSemicolon (behindColon str)).length < str.length := by
  have h1 : ∀ (p : UInt8 → Bool) (s : List UInt8), ((s.dropWhile p).drop 1).length ≤ s.length := by
    intro p s
    rw [List.length_drop]
    exact Nat.le_trans (Nat.sub_le _ _) (List.dropWhile_suffix p).length_le
  have h2 : (behindColon str).length < str.length := by
    have hpos : 0 < str.length := List.length_pos_of_mem h
    have hsuffix : str.dropWhile (fun c => decide (c ≠ colon)) <:+ str := List.dropWhile_suffix _
    have hle := hsuffix.length_le
    unfold behindColon
    rw [List.length_drop]
    omega
  exact Nat.lt_of_le_of_lt (h1 _ _) h2

/-! ## Stores and servers -/

theorem serverStores_inside (hi : i < 16) (hshort : (ipText str).length ≤ 15) : ∀ w ∈ serverStores i str, w.Inside := by
  intro w hw
  unfold serverStores at hw
  rcases List.mem_append.mp hw with hw | hw
  · rcases List.mem_cons.mp hw with rfl | hw
    · exact ⟨hi, by omega⟩
    · obtain rfl := List.mem_singleton.mp hw
      exact ⟨hi, by omega⟩
  · split at hw
    · obtain rfl := List.mem_singleton.mp hw
      exact hi
    · exact absurd hw List.not_mem_nil

/-- While no seventeenth server is stored, everything is inside, and the count is that of the servers. -/
theorem storeServers_inside (turns : Nat) : ∀ {i k : Nat} {str : List UInt8} {a : ServerArrays}, i + k = 16 →
    ¬ MoreThan isLegalIp k str → (∀ w ∈ (storeServers isLegalIp turns i str a).2.2, w.Inside) ∧
      ∀ n, (storeServers isLegalIp turns i str a).1 = some n → n ≤ 16 := by
  induction turns with
  | zero =>
      intro i k str a hk _
      refine ⟨fun w hw => absurd hw List.not_mem_nil, fun n hn => ?_⟩
      obtain rfl : i = n := Option.some.inj hn
      omega
  | succ turns ih =>
      intro i k str a hk hnot
      by_cases hcolon : colon ∈ str
      · by_cases hshort : (ipText str).length ≤ 15
        · cases k with
          | zero => exact absurd ⟨hcolon, hshort⟩ hnot
          | succ k =>
              have hin := serverStores_inside (i := i) (by omega) hshort
              rw [storeServers_server hcolon hshort]
              split
              · rename_i hlegal
                split
                · rename_i hsemicolon
                  have hbehind : behindColon str ≠ [] := List.ne_nil_of_mem hsemicolon
                  have hport : serverPort a i str = parsePort (behindColon str) := if_pos hbehind
                  rw [hport, Bool.and_eq_true] at hlegal
                  have hnext : ¬ MoreThan isLegalIp k (behindSemicolon (behindColon str)) := fun h =>
                    hnot ⟨hcolon, hshort, hlegal.1, hlegal.2, hsemicolon, h⟩
                  obtain ⟨hrest, hcount⟩ := @ih (i + 1) k _ (a.put i (ipText str) (serverPort a i str)) (by omega) hnext
                  refine ⟨fun w hw => ?_, hcount⟩
                  rcases List.mem_append.mp hw with hw | hw
                  · exact hin w hw
                  · exact hrest w hw
                · refine ⟨hin, fun n hn => ?_⟩
                  obtain rfl : i + 1 = n := Option.some.inj hn
                  omega
              · exact ⟨hin, fun n hn => nomatch hn⟩
        · rw [storeServers_long hcolon (Nat.not_le.mp hshort)]
          exact ⟨fun w hw => absurd hw List.not_mem_nil, fun n hn => nomatch hn⟩
      · rw [storeServers_none hcolon]
        refine ⟨fun w hw => absurd hw List.not_mem_nil, fun n hn => ?_⟩
        obtain rfl : i = n := Option.some.inj hn
        omega

/-- A seventeenth server is stored outside of the arrays. -/
theorem storeServers_outside (k : Nat) : ∀ {turns i : Nat} {str : List UInt8} {a : ServerArrays}, i + k = 16 →
    str.length ≤ turns → MoreThan isLegalIp k str → ∃ w ∈ (storeServers isLegalIp turns i str a).2.2, ¬ w.Inside := by
  induction k with
  | zero =>
      rintro turns i str a hk hle ⟨hcolon, hshort⟩
      have hpos : 0 < str.length := List.length_pos_of_mem hcolon
      obtain ⟨turns, rfl⟩ := Nat.exists_eq_succ_of_ne_zero (by omega : turns ≠ 0)
      rw [storeServers_server hcolon hshort]
      refine ⟨.ip i 0 (ipText str).length, ?_, fun h : i < 16 ∧ _ => by omega⟩
      split
      · split
        · exact List.mem_append_left _ List.mem_cons_self
        · exact List.mem_cons_self
      · exact List.mem_cons_self
  | succ k ih =>
      rintro turns i str a hk hle ⟨hcolon, hshort, hip, hport, hsemicolon, hmore⟩
      have hsemicolon : semicolon ∈ behindColon str := hsemicolon
      have hmore : MoreThan isLegalIp k (behindSemicolon (behindColon str)) := hmore
      have hpos : 0 < str.length := List.length_pos_of_mem hcolon
      obtain ⟨turns, rfl⟩ := Nat.exists_eq_succ_of_ne_zero (by omega : turns ≠ 0)
      have hbehind : behindColon str ≠ [] := List.ne_nil_of_mem hsemicolon
      have hserver : serverPort a i str = parsePort (behindColon str) := if_pos hbehind
      have hlegal : (isLegalIp (ipText str) && isLegalPort (serverPort a i str)) = true := by
        rw [hserver, Bool.and_eq_true]
        exact ⟨hip, hport⟩
      have hlt := behindSemicolon_length hcolon
      rw [storeServers_server hcolon hshort, if_pos hlegal, if_pos hsemicolon]
      obtain ⟨w, hw, hout⟩ := @ih turns (i + 1) _ (a.put i (ipText str) (serverPort a i str)) (by omega) (by omega) hmore
      exact ⟨w, List.mem_append_right _ hw, hout⟩

/-! ## The servers that are found -/

/-- The arrays as they start. -/
def initArrays : ServerArrays where
  ip := fun _ => []
  port := fun k => if k < 3 then 28000 else 0

/-- `n` servers of the arrays, from the `i`-th on. -/
def ServerArrays.servers (a : ServerArrays) (i n : Nat) : List Server :=
  (List.range' i n).map fun k => { ip := a.ip k, port := a.port k }

theorem parsePort_lt (s : List UInt8) : parsePort s < 65536 := Nat.mod_lt _ (by decide)

theorem parseServers_server (hports : a.port i = initArrays.port i) (h : colon ∈ str) (hshort : (ipText str).length ≤ 15)
    (turns : Nat) : parseServers isLegalIp (turns + 1) i str =
      if isLegalIp (ipText str) && isLegalPort (serverPort a i str) then
        if semicolon ∈ behindColon str then
          (parseServers isLegalIp turns (i + 1) (behindSemicolon (behindColon str))).map
            ({ ip := ipText str, port := serverPort a i str } :: ·)
        else some [{ ip := ipText str, port := serverPort a i str }]
      else none := by
  have hport : (if behindColon str = [] then (if i < 3 then 28000 else 0) else parsePort (behindColon str)) =
      serverPort a i str := by
    unfold serverPort
    rw [hports]
    by_cases hb : behindColon str = []
    · rw [if_pos hb, if_neg (not_not_intro hb)]
      rfl
    · rw [if_neg hb, if_pos hb]
  have hlt : serverPort a i str < 65536 := by
    rw [← hport]
    split
    · split
      · decide
      · decide
    · exact parsePort_lt _
  rw [parseServers, if_pos h]
  dsimp only
  rw [show (str.takeWhile fun c => decide (c ≠ colon)) = ipText str from rfl,
    show (str.dropWhile fun c => decide (c ≠ colon)).drop 1 = behindColon str from rfl,
    if_neg (Nat.not_lt.mpr hshort), hport]
  by_cases hlegal : (isLegalIp (ipText str) && isLegalPort (serverPort a i str)) = true
  · rw [if_pos hlegal, if_neg]
    · rfl
    · rw [Bool.and_eq_true] at hlegal
      rintro (hip | h0)
      · rw [hip] at hlegal
        exact absurd hlegal.1 (by decide)
      · rw [h0] at hlegal
        exact absurd hlegal.2 (by decide)
  · rw [if_neg hlegal, if_pos]
    by_cases hip : isLegalIp (ipText str) = false
    · exact .inl hip
    · refine .inr (Decidable.not_not.1 fun h0 => hlegal ?_)
      rw [eq_true_of_ne_false hip]
      unfold isLegalPort
      simpa using ⟨Nat.pos_of_ne_zero h0, hlt⟩

/-- The loop over the arrays finds the servers that `parseServers` finds, and leaves those below. -/
theorem storeServers_parse (turns : Nat) : ∀ {i : Nat} {str : List UInt8} {a : ServerArrays},
    (∀ k, i ≤ k → a.port k = initArrays.port k) →
    (∀ k, k < i → (storeServers isLegalIp turns i str a).2.1.ip k = a.ip k ∧
        (storeServers isLegalIp turns i str a).2.1.port k = a.port k) ∧
      (∀ n, (storeServers isLegalIp turns i str a).1 = some n → i ≤ n) ∧
      (storeServers isLegalIp turns i str a).1.map (fun n => (storeServers isLegalIp turns i str a).2.1.servers i (n - i)) =
        parseServers isLegalIp turns i str := by
  induction turns with
  | zero =>
      intro i str a _
      refine ⟨fun _ _ => ⟨rfl, rfl⟩, fun n hn => Nat.le_of_eq (Option.some.inj hn), ?_⟩
      show some (a.servers i (i - i)) = some []
      rw [Nat.sub_self]
      rfl
  | succ turns ih =>
      intro i str a hports
      by_cases hcolon : colon ∈ str
      · by_cases hshort : (ipText str).length ≤ 15
        · have hother : ∀ k, k ≠ i → (a.put i (ipText str) (serverPort a i str)).ip k = a.ip k ∧
              (a.put i (ipText str) (serverPort a i str)).port k = a.port k := fun k hk => ⟨if_neg hk, if_neg hk⟩
          have hself : (a.put i (ipText str) (serverPort a i str)).ip i = ipText str ∧
              (a.put i (ipText str) (serverPort a i str)).port i = serverPort a i str := ⟨if_pos rfl, if_pos rfl⟩
          rw [storeServers_server hcolon hshort, parseServers_server (hports i (Nat.le_refl i)) hcolon hshort]
          generalize a.put i (ipText str) (serverPort a i str) = a' at hother hself
          by_cases hlegal : (isLegalIp (ipText str) && isLegalPort (serverPort a i str)) = true
          · rw [if_pos hlegal, if_pos hlegal]
            by_cases hsemicolon : semicolon ∈ behindColon str
            · rw [if_pos hsemicolon, if_pos hsemicolon]
              obtain ⟨hbelow, hle, hfound⟩ := @ih (i + 1) (behindSemicolon (behindColon str)) a' fun k hk =>
                (hother k (by omega)).2.trans (hports k (by omega))
              generalize storeServers isLegalIp turns (i + 1) (behindSemicolon (behindColon str)) a' = r at hbelow hle hfound
              refine ⟨fun k hk => ?_, fun n hn => Nat.le_of_succ_le (hle n hn), ?_⟩
              · obtain ⟨h1, h2⟩ := hbelow k (by omega)
                obtain ⟨h3, h4⟩ := hother k (by omega)
                exact ⟨h1.trans h3, h2.trans h4⟩
              · rw [← hfound, Option.map_map]
                refine Option.map_congr fun n hn => ?_
                have hn := hle n hn
                obtain ⟨h1, h2⟩ := hbelow i (Nat.lt_succ_self i)
                unfold ServerArrays.servers
                rw [show n - i = n - (i + 1) + 1 by omega, List.range'_succ, List.map_cons, h1, h2, hself.1, hself.2]
                rfl
            · rw [if_neg hsemicolon, if_neg hsemicolon]
              refine ⟨fun k hk => hother k (by omega), fun n hn => ?_, ?_⟩
              · obtain rfl : i + 1 = n := Option.some.inj hn
                omega
              · show some (a'.servers i (i + 1 - i)) = _
                rw [Nat.add_sub_cancel_left]
                unfold ServerArrays.servers
                rw [List.range'_one, List.map_singleton, hself.1, hself.2]
          · rw [if_neg hlegal, if_neg hlegal]
            exact ⟨fun k hk => hother k (by omega), (fun n hn => nomatch hn), rfl⟩
        · rw [storeServers_long hcolon (Nat.not_le.mp hshort)]
          refine ⟨fun _ _ => ⟨rfl, rfl⟩, (fun n hn => nomatch hn), ?_⟩
          unfold parseServers
          rw [if_pos hcolon]
          exact (if_pos (Nat.not_le.mp hshort)).symm
      · rw [storeServers_none hcolon]
        refine ⟨fun _ _ => ⟨rfl, rfl⟩, fun n hn => Nat.le_of_eq (Option.some.inj hn), ?_⟩
        unfold parseServers
        rw [if_neg hcolon]
        show some (a.servers i (i - i)) = some []
        rw [Nat.sub_self]
        rfl

/-- In the first call the daemon finds the servers of `serversOf`. -/
theorem serversOf_eq (isLegalIp : List UInt8 → Bool) (h0 : 0 ∉ str) : serversOf isLegalIp (some str) =
    (tmDirtyDaemonServers isLegalIp initArrays (some str)).1.map
      ((tmDirtyDaemonServers isLegalIp initArrays (some str)).2.1.servers 0) := by
  obtain ⟨htext, -⟩ := copyAddr_spec str (Nat.zero_le 1024)
  have haddr : addrText str = str.filter isAddrChar := by
    unfold addrText
    rw [List.takeWhile_eq_self_iff.mpr]
    exact fun c hc => by simpa using fun heq : c = 0 => h0 (heq ▸ hc)
  rw [Nat.sub_zero, haddr] at htext
  unfold tmDirtyDaemonServers serversOf
  dsimp only
  rw [htext]
  obtain ⟨-, -, hfound⟩ := @storeServers_parse isLegalIp ((str.filter isAddrChar).take 1024).length 0
    ((str.filter isAddrChar).take 1024) initArrays fun _ _ => rfl
  unfold isAddrChar at hfound ⊢
  rw [← hfound]
  generalize storeServers isLegalIp _ 0 _ initArrays = r
  obtain ⟨count, a, stores⟩ := r
  cases count with
  | none => rfl
  | some n =>
      cases n with
      | zero => rfl
      | succ n => rfl

/-- What decides about a list: it is copied whole, and no seventeenth server is stored. -/
def ShortList (isLegalIp : List UInt8 → Bool) (str : List UInt8) : Prop :=
  (addrText str).length < 1024 ∧ ¬ MoreThan isLegalIp 16 (addrText str)

theorem tmDirtyDaemonServers_iff (isLegalIp : List UInt8 → Bool) (a : ServerArrays) (str : List UInt8) :
    Bounded (tmDirtyDaemonServers isLegalIp a (some str)) ↔ ShortList isLegalIp str := by
  obtain ⟨htext, hcopied⟩ := copyAddr_spec str (Nat.zero_le 1024)
  unfold tmDirtyDaemonServers
  dsimp only
  rw [htext, Nat.sub_zero]
  constructor
  · rintro ⟨hstores, -⟩
    have hlen : (addrText str).length < 1024 := by
      have hend := hstores (.buf ((addrText str).take 1024).length) (List.mem_append_left _ (by simp))
      have hend : ((addrText str).take 1024).length < 1024 := hend
      rw [List.length_take] at hend
      omega
    refine ⟨hlen, fun hmore => ?_⟩
    rw [List.take_of_length_le (Nat.le_of_lt hlen)] at hstores
    obtain ⟨w, hw, hout⟩ := storeServers_outside 16 (a := a) rfl (Nat.le_refl _) hmore
    exact hout (hstores w (List.mem_append_right _ hw))
  · rintro ⟨hlen, hnot⟩
    rw [List.take_of_length_le (Nat.le_of_lt hlen)]
    obtain ⟨hin, hcount⟩ := storeServers_inside (a := a) (addrText str).length (Nat.zero_add 16) hnot
    refine ⟨fun w hw => ?_, fun n hn => ?_⟩
    · rcases List.mem_append.mp hw with hw | hw
      · rcases List.mem_append.mp hw with hw | hw
        · exact hcopied w hw
        · obtain rfl := List.mem_singleton.mp hw
          exact hlen
      · exact hin w hw
    · dsimp only at hn
      split at hn
      · cases hn
      · rename_i hzero
        refine ⟨Nat.one_le_iff_ne_zero.mpr fun h0 => hzero ?_, hcount n hn⟩
        rw [hn, h0]

/-- Both daemons read a list of servers inside of their buffer and the arrays, and come to one to sixteen of
them, exactly when the list is copied whole and no seventeenth server is stored. -/
theorem servers_bounded_iff (isLegalIp : List UInt8 → Bool) (a : ServerArrays) (str : List UInt8) :
    (Bounded (tmDirtyDaemonServers isLegalIp a (some str)) ↔ ShortList isLegalIp str) ∧
      (Bounded (tmDirtyDaemonWithNamedMmapServers isLegalIp a (some str)) ↔ ShortList isLegalIp str) :=
  ⟨tmDirtyDaemonServers_iff isLegalIp a str, tmDirtyDaemonServers_iff isLegalIp a str⟩

/-- Servers "1.1.1.1:1;". -/
def serversSample (n : Nat) : List UInt8 :=
  (List.replicate n [0x31, dot, 0x31, dot, 0x31, dot, 0x31, colon, 0x31, semicolon]).flatten

theorem moreThan_serversSample (k : Nat) : MoreThan (fun s => (inetPton s).isSome) k (serversSample (k + 1)) := by
  have hserver : ∀ n, serversSample (n + 1) =
      [0x31, dot, 0x31, dot, 0x31, dot, 0x31] ++ colon :: 0x31 :: semicolon :: serversSample n := fun _ => rfl
  induction k with
  | zero => exact ⟨by decide, by decide⟩
  | succ k ih =>
      have hip : ipText (serversSample (k + 1 + 1)) = [0x31, dot, 0x31, dot, 0x31, dot, 0x31] := rfl
      have hbehind : behindColon (serversSample (k + 1 + 1)) = 0x31 :: semicolon :: serversSample (k + 1) := rfl
      have hport : parsePort (0x31 :: semicolon :: serversSample (k + 1)) = 1 := rfl
      have hnext : behindSemicolon (0x31 :: semicolon :: serversSample (k + 1)) = serversSample (k + 1) := rfl
      refine ⟨by rw [hserver]; simp, ?_, ?_, ?_, ?_, ?_⟩
      · show (ipText (serversSample (k + 1 + 1))).length ≤ 15
        rw [hip]
        decide
      · show (inetPton (ipText (serversSample (k + 1 + 1)))).isSome = true
        rw [hip]
        decide
      · show isLegalPort (parsePort (behindColon (serversSample (k + 1 + 1)))) = true
        rw [hbehind, hport]
        rfl
      · show semicolon ∈ behindColon (serversSample (k + 1 + 1))
        rw [hbehind]
        exact List.mem_cons_of_mem _ List.mem_cons_self
      · show MoreThan _ k (behindSemicolon (behindColon (serversSample (k + 1 + 1))))
        rw [hbehind, hnext]
        exact ih

/-- Seventeen servers are more than the arrays hold. -/
theorem not_servers_bounded : ¬ ∀ (isLegalIp : List UInt8 → Bool) (a : ServerArrays) (str : List UInt8),
    Bounded (tmDirtyDaemonServers isLegalIp a (some str)) ∧
      Bounded (tmDirtyDaemonWithNamedMmapServers isLegalIp a (some str)) := by
  intro h
  have hshort := (tmDirtyDaemonServers_iff _ _ _).mp (h (fun s => (inetPton s).isSome) initArrays (serversSample 17)).1
  have htext : addrText (serversSample 17) = serversSample 17 := by decide +kernel
  exact hshort.2 (htext.symm ▸ moreThan_serversSample 16)

end Taomee.Dirty
