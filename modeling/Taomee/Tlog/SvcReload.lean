import Mathlib.Data.List.Nodup
import Taomee.Tlog.Svc

/-!
# Loading the map again

A load starts behind the entries that the loads before it have counted. Those places hold zeros, and two of
them, or one at the start, are a game id that occurs twice.
-/

namespace Taomee.Tlog

/-- A file whose services can all be told apart. -/
structure ServiceConf (secs : List SvcInfo) : Prop where
  count : secs.length ≤ maxSvcNum
  titled : ∀ sec ∈ secs, sec.title.isSome
  named : ∀ sec ∈ secs, ∃ name, sec.name = some name ∧ name.val.length < maxSvcNameLen
  range : ∀ sec ∈ secs, 1 ≤ sec.gameid ∧ sec.gameid ≤ maxSvcNum
  gameids : (secs.map SvcInfo.gameid).Nodup
  names : (secs.map SvcInfo.name).Nodup

/-- A load of the file after a history of loads does what it should. -/
def LoadsServices (history : List ConfFile) (secs : List SvcInfo) : Prop :=
  ∃ s r, runLoads svcInit history = some s ∧ loadSvcGameidMap s (.sections secs) = some r ∧ r.ret = 0 ∧
    r.state.curSvcinfoCount = secs.length ∧ r.loadCount = some secs.length ∧
    (∀ sec ∈ secs, ∀ name, sec.name = some name → (getSvcGameid r.state name : Int) = sec.gameid) ∧
    ∀ name, (∀ sec ∈ secs, sec.name ≠ some name) → getSvcGameid r.state name = 0

/-- The file could not be read, did not parse, or held no service. -/
def Idle (conf : ConfFile) : Prop :=
  cfgParse conf = some .fileError ∨ cfgParse conf = some .parseError ∨
    cfgParse conf = some .success ∧ conf.secs = []

variable {secs : List SvcInfo} {sec : SvcInfo} {s : SvcState} {conf : ConfFile}

/-! ## The entries of a file -/

theorem validateSections_eq (h : ServiceConf secs) : validateSections secs = some 0 := by
  have hvalid : ∀ sec ∈ secs, cbValidateSvcinfo sec = some 0 := by
    intro sec hsec
    obtain ⟨title, htitle⟩ := Option.isSome_iff_exists.mp (h.titled sec hsec)
    obtain ⟨name, hname, hlen⟩ := h.named sec hsec
    have hrange := h.range sec hsec
    unfold cbValidateSvcinfo
    rw [htitle, hname]
    simp only
    rw [if_neg (by omega), if_neg (by omega)]
  clear h
  induction secs with
  | nil => rfl
  | cons sec secs ih =>
      unfold validateSections
      rw [hvalid sec List.mem_cons_self]
      simp only
      rw [if_neg (by decide), ih fun sec hsec => hvalid sec (List.mem_cons_of_mem _ hsec)]

theorem cfgParse_eq (h : ServiceConf secs) : cfgParse (.sections secs) = some .success := by
  rw [cfgParse, validateSections_eq h]
  rfl

theorem svcEntry_gameid (h : ServiceConf secs) (hsec : sec ∈ secs) : ((svcEntry sec).gameid : Int) = sec.gameid := by
  have hrange := h.range sec hsec
  have hmax : maxSvcNum = 1000 := rfl
  unfold svcEntry toU32
  simp only
  omega

/-- The entry of a service answers to its name and to no other. -/
theorem svcNamed_iff (h : ServiceConf secs) (hsec : sec ∈ secs) (svcName : CText) :
    svcNamed (svcEntry sec) svcName = true ↔ sec.name = some svcName := by
  obtain ⟨name, hname, hlen⟩ := h.named sec hsec
  have hmax : maxSvcNameLen = 32 := rfl
  have hsrc : ∀ text : CText, CStr (Buf.ofList text.val) 0 text.val := by
    intro text
    have := @CStr.of_list (Buf.ofList text.val) 0 text.val fun i => by
      rw [Nat.zero_add, Buf.ofList]
    rwa [takeWhile_ne_zero text.property] at this
  have hstored : CStr (svcEntry sec).name 0 name.val := by
    unfold svcEntry
    rw [hname]
    exact (hsrc name).snprintfStr (by omega)
  have hstrlen := @CStr.strlen _ maxSvcNameLen _ _ hstored (by omega)
  have hcmp := hstored.strncmpEq (hsrc svcName) hlen
  unfold svcNamed
  rw [hstrlen, Bool.and_eq_true, beq_iff_eq, hcmp, hname, Option.some.injEq]
  constructor
  · exact fun heq => Subtype.ext heq.2
  · intro heq
    subst heq
    exact ⟨rfl, rfl⟩

theorem fillShadow_eq (secs : List SvcInfo) (done : List SvcGameidMap) (n count : Nat)
    (hn : done.length + secs.length + n = maxSvcNum) :
    fillShadow secs done.length (done ++ List.replicate (secs.length + n) emptySvc) count =
      (done ++ secs.map svcEntry ++ List.replicate n emptySvc, count + secs.length) := by
  induction secs generalizing done count with
  | nil =>
      rw [fillShadow, List.map_nil, List.append_nil, List.length_nil, Nat.zero_add, Nat.add_zero]
  | cons si rest ih =>
      rw [List.length_cons] at hn
      have hlen : (done ++ [svcEntry si]).length = done.length + 1 := by simp
      have hset : (done ++ List.replicate (rest.length + 1 + n) emptySvc).set done.length (svcEntry si) =
          done ++ [svcEntry si] ++ List.replicate (rest.length + n) emptySvc := by
        have hsucc : rest.length + 1 + n = rest.length + n + 1 := by omega
        rw [hsucc, List.replicate_succ, List.set_append_right _ _ (Nat.le_refl _), Nat.sub_self, List.set_cons_zero,
          List.append_assoc, List.singleton_append]
      have hrest := ih (done ++ [svcEntry si]) (count + 1) (by rw [hlen]; omega)
      rw [hlen] at hrest
      rw [fillShadow, if_neg (by omega), List.length_cons, hset, hrest, List.map_cons, List.append_assoc _ [_],
        List.singleton_append, Nat.add_assoc count, Nat.add_comm 1]

/-! ## Sorting and scanning -/

theorem svcinfocmp_le {a b : SvcGameidMap} (ha : a.gameid ≤ maxSvcNum) (hb : b.gameid ≤ maxSvcNum) :
    svcinfocmp a b ≤ 0 ↔ a.gameid ≤ b.gameid := by
  have hmax : maxSvcNum = 1000 := rfl
  unfold svcinfocmp
  rw [toI32_of_lt (z := a.gameid) (by omega) (by omega), toI32_of_lt (z := b.gameid) (by omega) (by omega),
    toI32_of_lt (by omega) (by omega)]
  omega

/-- Entries whose game ids are small are sorted by them. -/
theorem sorted_of_small {l : List SvcGameidMap} (h : ∀ sg ∈ l, sg.gameid ≤ maxSvcNum) :
    (l.mergeSort fun a b => decide (svcinfocmp a b ≤ 0)).Pairwise fun a b => a.gameid ≤ b.gameid := by
  have hmap := List.map_mergeSort (r := fun a b => decide (svcinfocmp a b ≤ 0))
    (s := fun a b : SvcGameidMap => decide (a.gameid ≤ b.gameid)) (f := id) (l := l)
    fun a ha b hb => decide_eq_decide.mpr (svcinfocmp_le (h a ha) (h b hb))
  rw [List.map_id, List.map_id] at hmap
  rw [hmap]
  refine (List.pairwise_mergeSort ?_ ?_ l).imp fun hle => of_decide_eq_true hle
  · exact fun a b c hab hbc => decide_eq_true (Nat.le_trans (of_decide_eq_true hab) (of_decide_eq_true hbc))
  · intro a b
    rw [Bool.or_eq_true, decide_eq_true_eq, decide_eq_true_eq]
    exact Nat.le_total _ _

theorem scanGameids_true {l : List SvcGameidMap} {last : Nat} (h : l.Pairwise fun a b => a.gameid < b.gameid)
    (hl : ∀ sg ∈ l, last < sg.gameid ∧ sg.gameid ≤ maxSvcNum) : scanGameids l last = true := by
  induction l generalizing last with
  | nil => rfl
  | cons sg rest ih =>
      obtain ⟨hfirst, hrest⟩ := List.pairwise_cons.mp h
      obtain ⟨hlast, hmax⟩ := hl sg List.mem_cons_self
      unfold scanGameids
      rw [if_neg (by omega), if_neg (by omega)]
      exact ih hrest fun sg' hsg' => ⟨hfirst sg' hsg', (hl sg' (List.mem_cons_of_mem _ hsg')).2⟩

/-- A zero among sorted entries is the first of them, and counts as double. -/
theorem scanGameids_zero {l : List SvcGameidMap} (h : l.Pairwise fun a b => a.gameid ≤ b.gameid)
    (hzero : ∃ sg ∈ l, sg.gameid = 0) : scanGameids l 0 = false := by
  obtain ⟨sg, hsg, hsg0⟩ := hzero
  cases l with
  | nil => exact absurd hsg List.not_mem_nil
  | cons sg' rest =>
      have hfirst : sg'.gameid = 0 := by
        rcases List.mem_cons.mp hsg with rfl | hsg
        · exact hsg0
        · have := (List.pairwise_cons.mp h).1 sg hsg
          omega
      unfold scanGameids
      rw [if_pos hfirst]

theorem getSvcGameidLoop_found {svcName : CText} {l : List SvcGameidMap} {g : Nat}
    (hex : ∃ sg ∈ l, svcNamed sg svcName = true) (hall : ∀ sg ∈ l, svcNamed sg svcName = true → sg.gameid = g) :
    getSvcGameidLoop svcName l = g := by
  induction l with
  | nil =>
      obtain ⟨sg, hsg, -⟩ := hex
      exact absurd hsg List.not_mem_nil
  | cons sg rest ih =>
      unfold getSvcGameidLoop
      split
      · next hnamed => exact hall sg List.mem_cons_self hnamed
      · next hnamed =>
          refine ih ?_ fun sg' hsg' => hall sg' (List.mem_cons_of_mem _ hsg')
          obtain ⟨sg', hsg', hnamed'⟩ := hex
          rcases List.mem_cons.mp hsg' with rfl | hsg'
          · exact absurd hnamed' hnamed
          · exact ⟨sg', hsg', hnamed'⟩

theorem getSvcGameidLoop_none {svcName : CText} {l : List SvcGameidMap}
    (h : ∀ sg ∈ l, svcNamed sg svcName = false) : getSvcGameidLoop svcName l = 0 := by
  induction l with
  | nil => rfl
  | cons sg rest ih =>
      unfold getSvcGameidLoop
      rw [h sg List.mem_cons_self, if_neg (by decide)]
      exact ih fun sg' hsg' => h sg' (List.mem_cons_of_mem _ hsg')

/-! ## A load behind what was counted -/

/-- What is sorted: the entries of the file, and zeros for what was counted before. -/
def sortedEntries (secs : List SvcInfo) (counted : Nat) : List SvcGameidMap :=
  (secs.map svcEntry ++ List.replicate counted emptySvc).mergeSort fun a b => decide (svcinfocmp a b ≤ 0)

theorem sortedEntries_pairwise (h : ServiceConf secs) (counted : Nat) :
    (sortedEntries secs counted).Pairwise fun a b => a.gameid ≤ b.gameid := by
  refine sorted_of_small fun sg hsg => ?_
  rcases List.mem_append.mp hsg with hsg | hsg
  · obtain ⟨sec, hsec, rfl⟩ := List.mem_map.mp hsg
    have hgameid := svcEntry_gameid h hsec
    have hrange := h.range sec hsec
    omega
  · rw [List.eq_of_mem_replicate hsg]
    exact Nat.zero_le _

theorem sortedEntries_length (secs : List SvcInfo) (counted : Nat) :
    (sortedEntries secs counted).length = counted + secs.length := by
  unfold sortedEntries
  rw [List.length_mergeSort, List.length_append, List.length_map, List.length_replicate, Nat.add_comm]

/-- Without a count from before, the entries are those of the file. -/
theorem mem_sortedEntries_zero {sg : SvcGameidMap} :
    sg ∈ sortedEntries secs 0 ↔ ∃ sec ∈ secs, svcEntry sec = sg := by
  unfold sortedEntries
  rw [List.mem_mergeSort, List.replicate_zero, List.append_nil, List.mem_map]

/-- One load, with the entries in place. -/
theorem loadSvcGameidMap_eq (h : ServiceConf secs) (s : SvcState)
    (hc : s.curSvcinfoCountShadow + secs.length ≤ maxSvcNum) :
    ∃ shadow, shadow.take (s.curSvcinfoCountShadow + secs.length) = sortedEntries secs s.curSvcinfoCountShadow ∧
      loadSvcGameidMap s (.sections secs) =
        if scanGameids (sortedEntries secs s.curSvcinfoCountShadow) 0 then
          some ⟨⟨true, s.curSvcinfoCountShadow + secs.length, s.curSvcinfoCountShadow + secs.length, shadow, shadow⟩, 0,
            some (s.curSvcinfoCountShadow + secs.length)⟩
        else
          some ⟨{ s with curSvcinfoCountShadow := s.curSvcinfoCountShadow + secs.length, sgMapShadow := shadow }, -1,
            none⟩ := by
  generalize hcounted : s.curSvcinfoCountShadow = counted at hc ⊢
  have hfill := fillShadow_eq secs [] (maxSvcNum - secs.length) counted (by simp only [List.length_nil]; omega)
  rw [List.length_nil, List.nil_append, List.nil_append, Nat.add_sub_cancel' (by omega)] at hfill
  have htaken : (secs.map svcEntry ++ List.replicate (maxSvcNum - secs.length) emptySvc).take (counted + secs.length) =
      secs.map svcEntry ++ List.replicate counted emptySvc := by
    rw [List.take_append, List.take_of_length_le (by simp), List.take_replicate, List.length_map,
      Nat.add_sub_cancel, Nat.min_eq_left (by omega)]
  refine ⟨qsort (secs.map svcEntry ++ List.replicate (maxSvcNum - secs.length) emptySvc) (counted + secs.length), ?_, ?_⟩
  · have hlen := sortedEntries_length secs counted
    unfold qsort
    rw [htaken]
    exact List.take_left' hlen
  · have hsorted : (qsort (secs.map svcEntry ++ List.replicate (maxSvcNum - secs.length) emptySvc)
        (counted + secs.length)).take (counted + secs.length) = sortedEntries secs counted := by
      unfold qsort
      rw [htaken]
      exact List.take_left' (sortedEntries_length secs counted)
    unfold loadSvcGameidMap
    rw [cfgParse_eq h, hcounted]
    simp only [ConfFile.secs, hfill, hsorted]
    rw [if_neg (by omega)]

/-- Without a count from before, the services are published. -/
theorem loadSvcGameidMap_fresh (h : ServiceConf secs) (hc : s.curSvcinfoCountShadow = 0) :
    ∃ r, loadSvcGameidMap s (.sections secs) = some r ∧ r.ret = 0 ∧ r.state.svcinfoEnable = true ∧
      r.state.curSvcinfoCount = secs.length ∧ r.loadCount = some secs.length ∧
      r.state.sgMap.take secs.length = sortedEntries secs 0 := by
  have hcount := h.count
  obtain ⟨shadow, hshadow, hload⟩ := loadSvcGameidMap_eq h s (by omega)
  rw [hc, Nat.zero_add] at hshadow hload
  have hdistinct : (sortedEntries secs 0).Pairwise fun a b => a.gameid ≠ b.gameid := by
    have hperm := (List.mergeSort_perm (secs.map svcEntry ++ List.replicate 0 emptySvc)
      fun a b => decide (svcinfocmp a b ≤ 0)).symm
    refine hperm.pairwise ?_ fun hne => Ne.symm hne
    rw [List.replicate_zero, List.append_nil, List.pairwise_map]
    refine List.Pairwise.imp_of_mem (fun ha hb hne heq => ?_) (List.pairwise_map.mp h.gameids)
    rw [← svcEntry_gameid h ha, ← svcEntry_gameid h hb, heq] at hne
    exact hne rfl
  have hscan : scanGameids (sortedEntries secs 0) 0 = true := by
    refine scanGameids_true ?_ fun sg hsg => ?_
    · exact ((sortedEntries_pairwise h 0).and hdistinct).imp fun hlt => Nat.lt_of_le_of_ne hlt.1 hlt.2
    · obtain ⟨sec, hsec, rfl⟩ := mem_sortedEntries_zero.mp hsg
      have hgameid := svcEntry_gameid h hsec
      have hrange := h.range sec hsec
      omega
  rw [if_pos hscan] at hload
  exact ⟨_, hload, rfl, rfl, rfl, rfl, hshadow⟩

theorem loadSvcGameidMap_full (hparse : cfgParse conf = some .success)
    (hfull : maxSvcNum < s.curSvcinfoCountShadow + min conf.secs.length maxSvcNum) :
    loadSvcGameidMap s conf = none := by
  have hcount := fillShadow_count conf.secs (Nat.zero_le maxSvcNum) (List.replicate maxSvcNum emptySvc)
    s.curSvcinfoCountShadow
  rw [Nat.sub_zero] at hcount
  unfold loadSvcGameidMap
  rw [hparse]
  simp only
  rw [if_pos (by omega)]

/-- Behind a count from before, the same file is refused, or entries outside of the array are accessed. -/
theorem loadSvcGameidMap_counted (h : ServiceConf secs) (hc : 0 < s.curSvcinfoCountShadow) {r : LoadResult}
    (hload : loadSvcGameidMap s (.sections secs) = some r) : r.ret = -1 := by
  by_cases hroom : s.curSvcinfoCountShadow + secs.length ≤ maxSvcNum
  · obtain ⟨shadow, -, heq⟩ := loadSvcGameidMap_eq h s hroom
    have hscan : scanGameids (sortedEntries secs s.curSvcinfoCountShadow) 0 = false := by
      refine scanGameids_zero (sortedEntries_pairwise h _) ⟨emptySvc, ?_, rfl⟩
      refine List.mem_mergeSort.mpr (List.mem_append_right _ ?_)
      exact List.mem_replicate.mpr ⟨by omega, rfl⟩
    rw [heq, if_neg (by rw [hscan]; decide)] at hload
    cases hload
    rfl
  · have hlen := h.count
    have hfull : maxSvcNum < s.curSvcinfoCountShadow + min secs.length maxSvcNum := by omega
    rw [loadSvcGameidMap_full (cfgParse_eq h) hfull] at hload
    cases hload

/-! ## Histories -/

/-- As long as nothing is counted, each file was idle. -/
theorem idle_of_runLoads {s' : SvcState} {history : List ConfFile} (h : runLoads s history = some s')
    (hc : s'.curSvcinfoCountShadow = 0) : ∀ conf ∈ history, Idle conf := by
  have hsum := runLoads_count h
  rw [hc] at hsum
  have hzero : ∀ n ∈ history.map added, n = 0 := List.sum_eq_zero_iff_forall_eq_nat.mp (by omega)
  clear hsum hc
  induction history generalizing s with
  | nil => exact fun conf hconf => absurd hconf List.not_mem_nil
  | cons conf history ih =>
      unfold runLoads at h
      split at h
      · cases h
      · next r hload =>
          intro conf' hconf'
          rcases List.mem_cons.mp hconf' with rfl | hconf'
          · have hadded : added conf' = 0 := hzero _ (List.mem_map.mpr ⟨conf', List.mem_cons_self, rfl⟩)
            unfold added at hadded
            unfold loadSvcGameidMap at hload
            split at hload
            · cases hload
            · next hparse => exact .inl hparse
            · next hparse => exact .inr (.inl hparse)
            · next hparse =>
                refine .inr (.inr ⟨hparse, List.length_eq_zero_iff.mp ?_⟩)
                have hmax : maxSvcNum = 1000 := rfl
                rw [if_pos hparse] at hadded
                omega
          · exact ih h (fun n hn => hzero n (List.mem_cons_of_mem _ hn)) conf' hconf'

theorem loadSvcGameidMap_idle (hc : s.curSvcinfoCountShadow = 0) (h : Idle conf) :
    ∃ r, loadSvcGameidMap s conf = some r ∧ r.state.curSvcinfoCountShadow = 0 := by
  have hsome : ∃ r, loadSvcGameidMap s conf = some r := by
    unfold loadSvcGameidMap
    rcases h with h | h | ⟨h, hnil⟩
    · rw [h]
      exact ⟨_, rfl⟩
    · rw [h]
      exact ⟨_, rfl⟩
    · rw [h, hnil]
      simp only [fillShadow, hc]
      rw [if_neg (by decide)]
      split
      · exact ⟨_, rfl⟩
      · exact ⟨_, rfl⟩
  obtain ⟨r, hr⟩ := hsome
  have hadded : added conf = 0 := by
    unfold added
    rcases h with h | h | ⟨h, hnil⟩
    · rw [h, if_neg (by decide)]
    · rw [h, if_neg (by decide)]
    · rw [h, if_pos rfl, hnil, List.length_nil, Nat.zero_min]
  exact ⟨r, hr, by rw [loadSvcGameidMap_count hr, hc, hadded]⟩

theorem runLoads_idle {history : List ConfFile} (hc : s.curSvcinfoCountShadow = 0) (h : ∀ conf ∈ history, Idle conf) :
    ∃ s', runLoads s history = some s' ∧ s'.curSvcinfoCountShadow = 0 := by
  induction history generalizing s with
  | nil => exact ⟨s, rfl, hc⟩
  | cons conf history ih =>
      obtain ⟨r, hr, hc'⟩ := loadSvcGameidMap_idle hc (h conf List.mem_cons_self)
      obtain ⟨s', hrun, hs'⟩ := ih hc' fun conf' hconf' => h conf' (List.mem_cons_of_mem _ hconf')
      refine ⟨s', ?_, hs'⟩
      unfold runLoads
      rw [hr]
      exact hrun

/-! ## What is published -/

/-- Each listed name is answered with its game id, and no other name is answered. -/
theorem getSvcGameid_published (h : ServiceConf secs) (hen : s.svcinfoEnable = true)
    (hcount : s.curSvcinfoCount = secs.length) (hmap : s.sgMap.take secs.length = sortedEntries secs 0) :
    (∀ sec ∈ secs, ∀ name, sec.name = some name → (getSvcGameid s name : Int) = sec.gameid) ∧
      ∀ name, (∀ sec ∈ secs, sec.name ≠ some name) → getSvcGameid s name = 0 := by
  unfold getSvcGameid
  rw [hen, hcount, hmap]
  constructor
  · intro sec hsec name hname
    obtain ⟨name', hname', hlen⟩ := h.named sec hsec
    obtain rfl : name' = name := Option.some.inj (hname'.symm.trans hname)
    have hpos : secs.length ≠ 0 := List.length_pos_of_mem hsec |>.ne'
    rw [if_neg (by simp only [Bool.true_eq_false, false_or, not_or]; omega), ← svcEntry_gameid h hsec]
    refine congrArg _ (getSvcGameidLoop_found ⟨svcEntry sec, mem_sortedEntries_zero.mpr ⟨sec, hsec, rfl⟩,
      (svcNamed_iff h hsec _).mpr hname⟩ fun sg hsg hnamed => ?_)
    obtain ⟨sec', hsec', rfl⟩ := mem_sortedEntries_zero.mp hsg
    have hname'' := (svcNamed_iff h hsec' _).mp hnamed
    rw [List.inj_on_of_nodup_map h.names hsec' hsec (hname''.trans hname.symm)]
  · intro name hother
    split
    · rfl
    · refine getSvcGameidLoop_none fun sg hsg => ?_
      obtain ⟨sec, hsec, rfl⟩ := mem_sortedEntries_zero.mp hsg
      rw [Bool.eq_false_iff]
      exact fun hnamed => hother sec hsec ((svcNamed_iff h hsec name).mp hnamed)

/-- A file of services is loaded as it should be exactly when every load before it found no service, and a load
that fails changes no answer. -/
theorem loadsServices_iff (h : ServiceConf secs) (history : List ConfFile) :
    (LoadsServices history secs ↔ ∀ conf ∈ history, Idle conf) ∧
      ∀ s conf r, loadSvcGameidMap s conf = some r → r.ret = -1 →
        ∀ name, getSvcGameid r.state name = getSvcGameid s name := by
  refine ⟨⟨?_, ?_⟩, fun s conf r hload hret name => loadSvcGameidMap_failed hload hret name⟩
  · rintro ⟨s, r, hrun, hload, hret, -⟩
    refine idle_of_runLoads hrun ?_
    by_contra hc
    have hfail := loadSvcGameidMap_counted h (Nat.pos_of_ne_zero hc) hload
    rw [hret] at hfail
    exact absurd hfail (by decide)
  · intro hidle
    obtain ⟨s, hrun, hc⟩ := runLoads_idle (s := svcInit) rfl hidle
    obtain ⟨r, hload, hret, hen, hcount, hstored, hmap⟩ := loadSvcGameidMap_fresh h hc
    obtain ⟨hlisted, hother⟩ := getSvcGameid_published h hen hcount hmap
    exact ⟨s, r, hrun, hload, hret, hcount, hstored, hlisted, hother⟩

/-- One service, with the name "a". -/
def svcSample : SvcInfo := ⟨some ⟨[0x61], by decide⟩, some ⟨[0x61], by decide⟩, 7⟩

theorem svcSample_conf : ServiceConf [svcSample] where
  count := by decide
  titled := by simp [svcSample]
  named := by simp [svcSample, maxSvcNameLen]
  range := by simp [svcSample, maxSvcNum]
  gameids := List.nodup_singleton _
  names := List.nodup_singleton _

theorem loadsServices_iff_sample : LoadsServices [.unreadable, .sections []] [svcSample] := by
  refine (loadsServices_iff svcSample_conf _).1.mpr fun conf hconf => ?_
  rcases List.mem_cons.mp hconf with rfl | hconf
  · exact .inl rfl
  · rw [List.mem_singleton.mp hconf]
    exact .inr (.inr ⟨rfl, rfl⟩)

/-- The same file loaded twice. -/
theorem not_loadsServices : ¬ ∀ (history : List ConfFile) (secs : List SvcInfo), ServiceConf secs →
    LoadsServices history secs := by
  intro h
  obtain ⟨s, r, hrun, hload, hret, -⟩ := h [.sections [svcSample]] [svcSample] svcSample_conf
  have hadded : added (.sections [svcSample]) = 1 := if_pos (cfgParse_eq svcSample_conf)
  have hcount := runLoads_count hrun
  rw [List.map_singleton, hadded, List.sum_singleton] at hcount
  have hfail := loadSvcGameidMap_counted svcSample_conf (by omega) hload
  rw [hret] at hfail
  exact absurd hfail (by decide)

end Taomee.Tlog
