import Taomee.Config.Lemmas.Parse
import Taomee.Lib.Within

/-!
# The grammar of a configuration file

The parser on a buffer of known size, which has no result when a byte outside of it would be read or written,
and with the calls of `config_reset_or_add_value` in the place of the store. The calls are those that the lines
of the text describe.
-/

namespace Taomee.Config

variable {buf : Buf} {size p : Nat}

/-! ## The parser inside of its buffer -/

/-- `strSplitLoop` in a buffer of `size` bytes. -/
def strSplitLoopIn (ifs : UInt8 → Bool) (size : Nat) : Nat → Buf → Nat → Option (List Nat × Buf)
  | left, buf, line => do
      let line ← buf.scanIn ifs (size - line) line
      let c ← buf.getIn size line
      if c = 0 then return ([], buf)
      else
        let field := line
        match left with
        | 0 =>
            -- remove tailing spaces
            let n ← buf.strlenIn size line
            let line ← buf.scanBackIn ifs (line + n - 1)
            let buf ← buf.setIn size (line + 1) 0
            return ([field], buf)
        | left + 1 =>
            -- add a tailing NUL
            let line ← buf.scanIn (fun c => c ≠ 0 && !ifs c) (size - line) line
            let c ← buf.getIn size line
            if c = 0 then return ([field], buf)
            else
              let buf ← buf.setIn size line 0
              let (fields, buf) ← strSplitLoopIn ifs size left buf (line + 1)
              return (field :: fields, buf)

/-- `parseLine` in a buffer of `size` bytes. -/
def parseLineIn (size : Nat) (buf : Buf) (start : Nat) : Option (Buf × Option (List UInt8 × List UInt8)) := do
  let c ← buf.getIn size start
  if c ≠ 0x23 then
    match ← strSplitLoopIn myifs size 1 buf start with
    | ([key, val], buf) =>
        let k ← buf.cstrIn size key
        let v ← buf.cstrIn size val
        return (buf, some (k, v))
    | (_, buf) => return (buf, none)
  else return (buf, none)

/-- The loop of `parse_config` in a buffer of `size` bytes, for at most `fuel` lines: the calls of
`config_reset_or_add_value`, each of which succeeds. -/
def parseLoopIn (size len : Nat) : Nat → Buf → Nat → Option (List (List UInt8 × List UInt8))
  | 0, _, start => if len > start then none else some []
  | fuel + 1, buf, start =>
      if len > start then do
        let stop ← buf.strchrIn size start 0x0A
        let buf ← match stop with
          | some stop => buf.setIn size stop 0
          | none => some buf
        let (buf, pair) ← parseLineIn size buf start
        let rest ← match stop with
          | some stop => parseLoopIn size len fuel buf (stop + 1)
          | none => some []
        return pair.toList ++ rest
      else some []

/-- The calls that `parse_config(buffer)` makes for a buffer of `size` bytes. -/
def parseConfigIn (size : Nat) (buf : Buf) : Option (List (List UInt8 × List UInt8)) := do
  let len ← buf.strlenIn size 0
  parseLoopIn size len size buf 0

/-- On a line that ends inside of the buffer nothing outside is touched. -/
theorem strSplitLoopIn_eq {ifs : UInt8 → Bool} (h0 : ifs 0 = false) (left : Nat) : ∀ {buf : Buf} {p : Nat}
    {line : List UInt8}, CStr buf p line → p + line.length < size →
    strSplitLoopIn ifs size left buf p = some (strSplitLoop ifs size left buf p) := by
  induction left with
  | zero =>
      intro buf p line h hf
      obtain ⟨hrest, hpk, hlen⟩ := h.skip h0 (by omega : line.length ≤ size)
      unfold strSplitLoopIn strSplitLoop
      rw [h.scanIn h0 (by omega) (by omega : line.length ≤ size)]
      generalize buf.scan ifs size p = k at hrest hpk hlen
      simp only [Option.bind_eq_bind, Option.bind_some, Buf.getIn_of_lt (by omega : k < size) buf]
      cases hr : line.dropWhile ifs with
      | nil =>
          rw [hr] at hrest
          have hend : buf k = 0 := hrest
          rw [if_pos hend, if_pos hend]
          rfl
      | cons c rest =>
          have hc : ¬ ifs c := dropWhile_cons_not hr
          rw [hr] at hrest hlen
          have hne : ¬ buf k = 0 := by
            rw [hrest.1]
            exact hrest.2.1
          have hex : ∃ c' ∈ c :: rest, ¬ ifs c' := ⟨c, List.mem_cons_self, hc⟩
          have hback := Buf.scanBack_eq (fun i hi => hrest.get hi) hex
          have hback' := Buf.scanBackIn_eq (fun i hi => hrest.get hi) hex
          have hple := (List.rdropWhile_prefix ifs (c :: rest)).length_le
          rw [if_neg hne, if_neg hne, hrest.strlenIn (by omega), hrest.strlen (by omega)]
          simp only [Option.bind_some, hback']
          rw [Buf.setIn_of_lt (by omega)]
          rfl
  | succ left ih =>
      intro buf p line h hf
      obtain ⟨hrest, hpk, hlen⟩ := h.skip h0 (by omega : line.length ≤ size)
      unfold strSplitLoopIn strSplitLoop
      rw [h.scanIn h0 (by omega) (by omega : line.length ≤ size)]
      generalize buf.scan ifs size p = k at hrest hpk hlen
      simp only [Option.bind_eq_bind, Option.bind_some, Buf.getIn_of_lt (by omega : k < size) buf]
      cases hr : line.dropWhile ifs with
      | nil =>
          rw [hr] at hrest
          have hend : buf k = 0 := hrest
          rw [if_pos hend, if_pos hend]
          rfl
      | cons c rest =>
          rw [hr] at hrest hlen
          have hne : ¬ buf k = 0 := by
            rw [hrest.1]
            exact hrest.2.1
          have hword : (c :: rest).takeWhile (fun b => !ifs b) ++
              (c :: rest).dropWhile (fun b => !ifs b) = c :: rest := List.takeWhile_append_dropWhile
          have hwlen : ((c :: rest).takeWhile fun b => !ifs b).length +
              ((c :: rest).dropWhile fun b => !ifs b).length = (c :: rest).length := by
            rw [← List.length_append, hword]
          have htest : (fun b : UInt8 => decide (b ≠ 0) && !ifs b) 0 = false := by simp
          rw [if_neg hne, if_neg hne, hrest.scanIn htest (by omega) (by omega : (c :: rest).length ≤ size)]
          simp only [Option.bind_some]
          rw [@CStr.scan _ _ _ (fun b => b ≠ 0 && !ifs b) htest hrest _ (by omega),
            takeWhile_ne_zero_and hrest.zero_notMem]
          generalize (c :: rest).takeWhile (fun b => !ifs b) = word at hword hwlen ⊢
          rw [Buf.getIn_of_lt (by omega)]
          simp only [Option.bind_some]
          cases ht : (c :: rest).dropWhile (fun b => !ifs b) with
          | nil =>
              rw [ht, List.append_nil] at hword
              have hend : buf (k + word.length) = 0 := by
                have h' : CStr buf k (word ++ []) := by rwa [List.append_nil, hword]
                exact h'.drop
              rw [if_pos hend, if_pos hend]
              rfl
          | cons d tail =>
              rw [ht] at hword hwlen
              rw [← hword] at hrest
              have hcons := hrest.drop
              have hne' : ¬ buf (k + word.length) = 0 := by
                rw [hcons.1]
                exact hcons.2.1
              rw [List.length_cons] at hwlen
              rw [if_neg hne', if_neg hne', Buf.setIn_of_lt (by omega)]
              simp only [Option.bind_some]
              rw [ih (hcons.2.2.set_of_lt (Nat.lt_succ_self _) 0) (by omega)]
              rfl

/-- A line that ends inside of the buffer. -/
theorem parseLineIn_eq {line : List UInt8} (h : CStr buf p line) (hf : p + line.length < size) :
    parseLineIn size buf p = some (parseLine size buf p) := by
  unfold parseLineIn parseLine
  rw [Buf.getIn_of_lt (by omega)]
  simp only [Option.bind_eq_bind, Option.bind_some]
  by_cases hc : buf p ≠ 0x23
  · obtain ⟨fields, buf', heq, hfields, -⟩ :=
      @strSplitLoop_spec _ size _ myifs (by decide) 1 _ h (by omega)
    rw [if_pos hc, if_pos hc, strSplitLoopIn_eq (by decide) 1 h hf]
    have heq' : strSplit myifs size buf p 2 = (fields, buf') := heq
    have hle : ∀ f ∈ splitFields myifs 1 line, f.length ≤ size :=
      fun f hf' => (splitFields_length_le 1 hf').trans (by omega)
    rw [heq, heq']
    simp only [Option.bind_some]
    generalize splitFields myifs 1 line = fs at hfields hle
    cases hfields with
    | nil => rfl
    | cons hkey hfields =>
        cases hfields with
        | nil => rfl
        | cons hval hfields =>
            cases hfields with
            | cons _ _ => rfl
            | nil =>
                obtain ⟨hkey, hkeyEnd⟩ := hkey
                obtain ⟨hval, hvalEnd⟩ := hval
                have hk := @CStr.cstrIn buf' size _ _ hkey (by omega)
                have hv := @CStr.cstrIn buf' size _ _ hval (by omega)
                simp only [hk, hv, hkey.cstr (hle _ (by simp)), hval.cstr (hle _ (by simp)), Option.bind_some]
                rfl
  · rw [if_neg hc, if_neg hc]
    rfl

/-- The induction is on the lines left, as for `parseLoop`. -/
theorem parseLoopIn_spec {len fuel : Nat} {text : List UInt8} (h : CStr buf p text) (hlen : p + text.length = len)
    (hsize : len < size) (hfuel : text.length ≤ fuel) : parseLoopIn size len fuel buf p = some (assignments text) := by
  induction fuel generalizing buf p text with
  | zero =>
      obtain rfl := List.length_eq_zero_iff.mp (Nat.le_zero.mp hfuel)
      exact if_neg (by simp at hlen; omega)
  | succ fuel ih =>
      cases text with
      | nil => exact if_neg (by simp at hlen; omega)
      | cons c text' =>
          have hgt : len > p := by simp at hlen; omega
          generalize c :: text' = text at h hlen hfuel
          unfold parseLoopIn
          rw [if_pos hgt, h.strchrIn 0x0A (by omega) (by omega : text.length ≤ size)]
          simp only [Option.bind_eq_bind, Option.bind_some]
          by_cases hnl : 0x0A ∈ text
          · obtain ⟨line, rest, rfl, hline⟩ := List.eq_append_cons_of_mem hnl
            have hrest := h.drop.2.2.set_of_lt (Nat.lt_succ_self _) 0
            rw [List.length_append, List.length_cons] at hlen hfuel
            obtain ⟨hpair, hframe⟩ := @parseLine_spec _ size _ _ h.cut (by omega)
            rw [h.strchr_some hline (by simp; omega), assignments_append hline]
            dsimp only
            rw [Buf.setIn_of_lt (by omega)]
            simp only [Option.bind_some]
            rw [parseLineIn_eq h.cut (by omega)]
            simp only [Option.bind_some]
            rw [ih (hrest.congr fun i h1 _ => hframe i (by omega)) (by omega) (by omega), hpair]
            rfl
          · obtain ⟨hpair, -⟩ := @parseLine_spec _ size _ _ h (by omega)
            rw [h.strchr_none (by decide) hnl (by omega), assignments_line hnl, parseLineIn_eq h (by omega)]
            simp only [Option.bind_some, hpair, List.append_nil]
            rfl

/-! ## The grammar -/

/-- Space, tab, CR and `=`. -/
def isSeparator (c : UInt8) : Bool := c = 0x20 || c = 0x09 || c = 0x0D || c = 0x3D

/-- What a line stands for: the first run of non-separators, and the rest behind the separators that follow,
without the separators at its end. A line with `#` for its first character stands for nothing, and so does one
that lacks the key or the value. -/
def keyValue (line : List UInt8) : Option (List UInt8 × List UInt8) :=
  if line.head? = some 0x23 then none
  else
    let fields := line.dropWhile isSeparator
    let key := fields.takeWhile fun c => !isSeparator c
    let val := ((fields.dropWhile fun c => !isSeparator c).dropWhile isSeparator).rdropWhile isSeparator
    if key ≠ [] ∧ val ≠ [] then some (key, val) else none

/-- The pairs of a text, line by line. -/
def keyValues (text : List UInt8) : List (List UInt8 × List UInt8) := (text.splitOn 0x0A).filterMap keyValue

theorem takeWhile_congr_mem {p q : UInt8 → Bool} {l : List UInt8} (h : ∀ c ∈ l, p c = q c) :
    l.takeWhile p = l.takeWhile q ∧ l.dropWhile p = l.dropWhile q := by
  induction l with
  | nil => exact ⟨rfl, rfl⟩
  | cons c l ih =>
      obtain ⟨h1, h2⟩ := ih fun b hb => h b (List.mem_cons_of_mem c hb)
      rw [List.takeWhile_cons, List.takeWhile_cons, List.dropWhile_cons, List.dropWhile_cons, h c List.mem_cons_self, h1, h2]
      exact ⟨rfl, rfl⟩

/-- The two fields that `str_split` asks for. -/
theorem splitFields_one (sep : UInt8 → Bool) (line : List UInt8) :
    (match splitFields sep 1 line with
      | [key, val] => some (key, val)
      | _ => none) =
      if (line.dropWhile sep).takeWhile (fun c => !sep c) ≠ [] ∧
          ((((line.dropWhile sep).dropWhile fun c => !sep c).dropWhile sep).rdropWhile sep) ≠ [] then
        some ((line.dropWhile sep).takeWhile fun c => !sep c,
          ((((line.dropWhile sep).dropWhile fun c => !sep c).dropWhile sep).rdropWhile sep))
      else none := by
  unfold splitFields
  cases hfirst : line.dropWhile sep with
  | nil => rfl
  | cons c rest =>
      have hc : ¬ sep c := dropWhile_cons_not hfirst
      have hkey : (c :: rest).takeWhile (fun c => !sep c) ≠ [] := by
        rw [List.takeWhile_cons_of_pos (by simpa using hc)]
        exact List.cons_ne_nil _ _
      dsimp only
      unfold splitFields
      cases hsecond : ((c :: rest).dropWhile fun c => !sep c).dropWhile sep with
      | nil =>
          rw [if_neg fun h => h.2 rfl]
      | cons d tail =>
          have hd : ¬ sep d := dropWhile_cons_not hsecond
          have hval : (d :: tail).rdropWhile sep ≠ [] := by
            intro hnil
            exact hd (List.rdropWhile_eq_nil_iff.mp hnil d List.mem_cons_self)
          rw [if_pos ⟨hkey, hval⟩]

theorem keyValue_eq {line : List UInt8} (h : 0x0A ∉ line) : lineAssigns line = keyValue line := by
  have hsep : ∀ c ∈ line, myifs c = isSeparator c := by
    intro c hc
    have hne : c ≠ 0x0A := fun heq => h (heq ▸ hc)
    unfold myifs isSeparator
    simp [hne]
  -- the two tests agree on every part of the line
  have hpart : ∀ l : List UInt8, l ⊆ line → l.dropWhile myifs = l.dropWhile isSeparator ∧
      (l.takeWhile fun c => !myifs c) = (l.takeWhile fun c => !isSeparator c) ∧
      (l.dropWhile fun c => !myifs c) = (l.dropWhile fun c => !isSeparator c) ∧
      l.rdropWhile myifs = l.rdropWhile isSeparator := by
    intro l hl
    have hnot := @takeWhile_congr_mem (fun c => !myifs c) (fun c => !isSeparator c) l fun c hc =>
      congrArg (! ·) (hsep c (hl hc))
    refine ⟨(takeWhile_congr_mem fun c hc => hsep c (hl hc)).2, hnot.1, hnot.2, ?_⟩
    unfold List.rdropWhile
    rw [(takeWhile_congr_mem fun c hc => hsep c (hl (List.mem_reverse.mp hc))).2]
  have h1 : line.dropWhile isSeparator ⊆ line := (List.dropWhile_suffix _).subset
  have h2 : ((line.dropWhile isSeparator).dropWhile fun c => !isSeparator c) ⊆ line := fun c hc =>
    h1 ((List.dropWhile_suffix _).subset hc)
  have h3 : ((line.dropWhile isSeparator).dropWhile fun c => !isSeparator c).dropWhile isSeparator ⊆ line := fun c hc =>
    h2 ((List.dropWhile_suffix _).subset hc)
  unfold lineAssigns keyValue
  by_cases hcomment : line.head? = some 0x23
  · rw [if_pos hcomment, if_pos hcomment]
  · rw [if_neg hcomment, if_neg hcomment]
    refine (splitFields_one myifs line).trans ?_
    rw [(hpart line (List.Subset.refl line)).1, (hpart _ h1).2.1, (hpart _ h1).2.2.1, (hpart _ h2).1, (hpart _ h3).2.2.2]

theorem newline_notMem {text : List UInt8} : ∀ {line : List UInt8}, line ∈ text.splitOn 0x0A → 0x0A ∉ line := by
  induction text with
  | nil =>
      intro line h
      rw [List.splitOn_nil, List.mem_singleton] at h
      rw [h]
      exact List.not_mem_nil
  | cons c text ih =>
      intro line h
      rw [List.splitOn_cons_eq_if_modifyHead] at h
      split at h
      · rcases List.mem_cons.mp h with rfl | h
        · exact List.not_mem_nil
        · exact ih h
      · rename_i hc
        cases hs : text.splitOn 0x0A with
        | nil => exact absurd hs (List.splitOn_ne_nil _ _)
        | cons first rest =>
            rw [hs] at h ih
            rcases List.mem_cons.mp h with rfl | h
            · intro hmem
              rcases List.mem_cons.mp hmem with rfl | hmem
              · exact hc BEq.rfl
              · exact ih List.mem_cons_self hmem
            · exact ih (List.mem_cons_of_mem _ h)

theorem assignments_eq (text : List UInt8) : assignments text = keyValues text := by
  unfold assignments keyValues
  refine List.filterMap_congr fun line hline => keyValue_eq (newline_notMem hline)

/-- On every buffer that a NUL ends, the calls of `config_reset_or_add_value` are those that the grammar
gives for the text before it, and nothing outside of the text and its NUL is read or written. The store gets
them one after the other. -/
theorem parseConfig_grammar (buffer : List UInt8) :
    parseConfigIn ((buffer.takeWhile fun c => c ≠ 0).length + 1) (Buf.ofList buffer) =
        some (keyValues (buffer.takeWhile fun c => c ≠ 0)) ∧
      ∀ s, parseConfig ((buffer.takeWhile fun c => c ≠ 0).length + 1) (Buf.ofList buffer) s =
        assignAll s (keyValues (buffer.takeWhile fun c => c ≠ 0)) := by
  have htext : CStr (Buf.ofList buffer) 0 (buffer.takeWhile fun c => c ≠ 0) :=
    .of_list fun i => by rw [Nat.zero_add]; rfl
  rw [← assignments_eq]
  constructor
  · unfold parseConfigIn
    rw [htext.strlenIn (by omega)]
    simp only [Option.bind_eq_bind, Option.bind_some]
    exact parseLoopIn_spec htext (by omega) (by omega) (by omega)
  · intro s
    refine parseLoop_spec htext ?_ (by omega) (by omega)
    rw [Nat.zero_add, htext.strlen (by omega)]

end Taomee.Config
