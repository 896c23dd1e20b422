import Taomee.Lib.CInt
import Taomee.Lib.CString

/-!
# Services and their game ids (tlog/tools/svc.c)

A load reads the sections into a shadow array, sorts it, looks for game ids that occur twice and publishes it.
The shadow counter is a variable of the process. What libconfuse makes of a file is given: the sections in
their order.
-/

namespace Taomee.Tlog

/-- `MAX_SVC_NAME_LEN` -/
def maxSvcNameLen : Nat := 32

/-- `MAX_SVC_NUM` -/
def maxSvcNum : Nat := 1000

/-- A string of C. -/
abbrev CText := { s : List UInt8 // 0 ∉ s }

/-- An `svcinfo` section. -/
structure SvcInfo where
  title : Option CText
  name : Option CText
  gameid : Int

/-- A configuration file: `malformed` with the sections before the error. -/
inductive ConfFile where
  | unreadable
  | malformed (secs : List SvcInfo)
  | sections (secs : List SvcInfo)

/-- What `cfg_parse` returns. -/
inductive CfgRet where
  | success
  | fileError
  | parseError
deriving DecidableEq

/-- `struct svc_gameid_map_t` -/
structure SvcGameidMap where
  name : Buf
  gameid : Nat

/-- The static variables of the module. -/
structure SvcState where
  svcinfoEnable : Bool
  curSvcinfoCount : Nat
  curSvcinfoCountShadow : Nat
  sgMap : List SvcGameidMap
  sgMapShadow : List SvcGameidMap

/-- An entry after `memset`. -/
def emptySvc : SvcGameidMap := ⟨fun _ => 0, 0⟩

/-- The variables when the process starts. -/
def svcInit : SvcState where
  svcinfoEnable := false
  curSvcinfoCount := 0
  curSvcinfoCountShadow := 0
  sgMap := List.replicate maxSvcNum emptySvc
  sgMapShadow := List.replicate maxSvcNum emptySvc

/-! ## Reading the file -/

/-- `cb_validate_svcinfo`. There is no result for a section without a name: the error text takes its `strlen`. -/
def cbValidateSvcinfo (sec : SvcInfo) : Option Int :=
  match sec.title, sec.name with
  | none, _ => some (-1)
  | some _, none => none
  | some _, some name => if maxSvcNameLen ≤ name.val.length then some (-1) else if sec.gameid ≤ 0 then some (-1) else some 0

/-- The sections are validated one after the other, up to the first that is not valid. -/
def validateSections : List SvcInfo → Option Int
  | [] => some 0
  | sec :: secs =>
      match cbValidateSvcinfo sec with
      | none => none
      | some ret => if ret ≠ 0 then some ret else validateSections secs

/-- `cfg_parse` with the validating callback. -/
def cfgParse : ConfFile → Option CfgRet
  | .unreadable => some .fileError
  | .malformed secs => (validateSections secs).map fun _ => .parseError
  | .sections secs => (validateSections secs).map fun ret => if ret = 0 then .success else .parseError

/-- `cfg_getnsec(cfg, "svcinfo", i)` for all `i`. -/
def ConfFile.secs : ConfFile → List SvcInfo
  | .unreadable => []
  | .malformed secs => secs
  | .sections secs => secs

/-! ## Loading -/

/-- The entry of a section; `name` and `gameid` are set in one that `memset` cleared. -/
def svcEntry (si : SvcInfo) : SvcGameidMap where
  name := emptySvc.name.snprintfStr 0 (Buf.ofList (si.name.elim [] Subtype.val)) 0 (maxSvcNameLen - 1)
  gameid := toU32 si.gameid

/-- The loop over the sections, from the one at `i` on, with `cur_svcinfo_count_shadow`. -/
def fillShadow : List SvcInfo → Nat → List SvcGameidMap → Nat → List SvcGameidMap × Nat
  | [], _, shadow, count => (shadow, count)
  | si :: rest, i, shadow, count =>
      if i = maxSvcNum then (shadow, count)
      else fillShadow rest (i + 1) (shadow.set i (svcEntry si)) (count + 1)

/-- `svcinfocmp(a, b)` -/
def svcinfocmp (a b : SvcGameidMap) : Int := toI32 (toI32 a.gameid - toI32 b.gameid)

/-- `qsort(shadow, count, sizeof(shadow[0]), svcinfocmp)`. Entries that compare equal are refused afterwards. -/
def qsort (shadow : List SvcGameidMap) (count : Nat) : List SvcGameidMap :=
  (shadow.take count).mergeSort (fun a b => decide (svcinfocmp a b ≤ 0)) ++ shadow.drop count

/-- The loop that looks for double and too large game ids; `false` where it returns -1. -/
def scanGameids : List SvcGameidMap → Nat → Bool
  | [], _ => true
  | sg :: rest, last =>
      if sg.gameid = last then false else if maxSvcNum < sg.gameid then false else scanGameids rest sg.gameid

/-- The variables, what is returned, and what is stored at `*load_count` when it is not null. -/
structure LoadResult where
  state : SvcState
  ret : Int
  loadCount : Option Nat

/-- `load_svc_gameid_map(conf_path, load_count)`. There is no result when an entry outside of the shadow array is
accessed. -/
def loadSvcGameidMap (s : SvcState) (conf : ConfFile) : Option LoadResult :=
  match cfgParse conf with
  | none => none
  | some .fileError => some ⟨s, -1, none⟩
  | some .parseError => some ⟨s, -1, none⟩
  | some .success =>
      let filled := fillShadow conf.secs 0 (List.replicate maxSvcNum emptySvc) s.curSvcinfoCountShadow
      let count := filled.2
      if maxSvcNum < count then none
      else
        let shadow := qsort filled.1 count
        if scanGameids (shadow.take count) 0 then
          some ⟨⟨true, count, count, shadow, shadow⟩, 0, some count⟩
        else some ⟨{ s with curSvcinfoCountShadow := count, sgMapShadow := shadow }, -1, none⟩

/-! ## Asking -/

/-- The two conditions under which `get_svc_gameid` takes an entry. -/
def svcNamed (sg : SvcGameidMap) (svcName : CText) : Bool :=
  sg.name.strlen maxSvcNameLen 0 == svcName.val.length &&
    sg.name.strncmpEq 0 (Buf.ofList svcName.val) 0 maxSvcNameLen

/-- The loop of `get_svc_gameid`. -/
def getSvcGameidLoop (svcName : CText) : List SvcGameidMap → Nat
  | [] => 0
  | sg :: rest => if svcNamed sg svcName then sg.gameid else getSvcGameidLoop svcName rest

/-- `get_svc_gameid(svc_name)` -/
def getSvcGameid (s : SvcState) (svcName : CText) : Nat :=
  if s.svcinfoEnable = false ∨ s.curSvcinfoCount = 0 ∨ maxSvcNameLen < svcName.val.length then 0
  else getSvcGameidLoop svcName (s.sgMap.take s.curSvcinfoCount)

/-- The variables after the loads of a history. -/
def runLoads : SvcState → List ConfFile → Option SvcState
  | s, [] => some s
  | s, conf :: history =>
      match loadSvcGameidMap s conf with
      | none => none
      | some r => runLoads r.state history

/-! ## What a load counts -/

/-- What a load adds to the shadow counter. -/
def added (conf : ConfFile) : Nat := if cfgParse conf = some .success then min conf.secs.length maxSvcNum else 0

theorem fillShadow_count (secs : List SvcInfo) {i : Nat} (hi : i ≤ maxSvcNum) (shadow : List SvcGameidMap) (count : Nat) :
    (fillShadow secs i shadow count).2 = count + min secs.length (maxSvcNum - i) := by
  induction secs generalizing i shadow count with
  | nil => rw [fillShadow, List.length_nil, Nat.zero_min, Nat.add_zero]
  | cons si rest ih =>
      unfold fillShadow
      split
      · subst i
        rw [Nat.sub_self, Nat.min_zero, Nat.add_zero]
      · rw [ih (by omega), List.length_cons]
        omega

/-- The shadow counter is never reset. -/
theorem loadSvcGameidMap_count {s : SvcState} {conf : ConfFile} {r : LoadResult}
    (h : loadSvcGameidMap s conf = some r) :
    r.state.curSvcinfoCountShadow = s.curSvcinfoCountShadow + added conf := by
  unfold loadSvcGameidMap at h
  unfold added
  split at h
  · cases h
  · next hparse =>
      cases h
      rw [hparse, if_neg (by decide), Nat.add_zero]
  · next hparse =>
      cases h
      rw [hparse, if_neg (by decide), Nat.add_zero]
  · next hparse =>
      have hcount := fillShadow_count conf.secs (Nat.zero_le maxSvcNum) (List.replicate maxSvcNum emptySvc)
        s.curSvcinfoCountShadow
      rw [hparse, if_pos rfl]
      simp only at h
      split at h
      · cases h
      · split at h
        · cases h
          exact hcount
        · cases h
          exact hcount

/-- A load that fails leaves what is published. -/
theorem loadSvcGameidMap_failed {s : SvcState} {conf : ConfFile} {r : LoadResult}
    (h : loadSvcGameidMap s conf = some r) (hret : r.ret = -1) (svcName : CText) :
    getSvcGameid r.state svcName = getSvcGameid s svcName := by
  unfold loadSvcGameidMap at h
  split at h
  · cases h
  · cases h
    rfl
  · cases h
    rfl
  · simp only at h
    split at h
    · cases h
    · split at h
      · cases h
        have hzero : (0 : Int) = -1 := hret
        exact absurd hzero (by decide)
      · cases h
        rfl

theorem runLoads_count {s s' : SvcState} {history : List ConfFile} (h : runLoads s history = some s') :
    s'.curSvcinfoCountShadow = s.curSvcinfoCountShadow + (history.map added).sum := by
  induction history generalizing s with
  | nil =>
      cases h
      rfl
  | cons conf history ih =>
      unfold runLoads at h
      split at h
      · cases h
      · next r hload =>
          rw [ih h, loadSvcGameidMap_count hload, List.map_cons, List.sum_cons, Nat.add_assoc]

end Taomee.Tlog
