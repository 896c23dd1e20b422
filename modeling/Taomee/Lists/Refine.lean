import Taomee.Lists.Lists

/-!
# The lists of list.h are lists

A family of lists is a partial map from heads to sequences of nodes, and each call of list.h has its
plain meaning there: cons, append, removal, concatenation. Any run of calls that respects what is a
head and what is an entry keeps the links in step with the family, and the loops read it.
-/

namespace Taomee.Lists

open Taomee (Links)
open Taomee.Links (Ring Family Loose)

variable {P : Type} [DecidableEq P] {null : P} {m : Links P}

/-- The heads and the lists they stand for. -/
abbrev Heads (P : Type) := P → Option (List P)

/-! ## What the calls mean -/

/-- A node that may be put into a list: in none, or the head of an empty one. -/
def Free (lists : Heads P) (x : P) : Prop := Loose lists x ∨ lists x = some []

/-- The family after a call. -/
inductive Step (lists : Heads P) : ListOp P → Heads P → Prop
  | initListHead {x : P} : Free lists x → Step lists (.initListHead x) (Function.update lists x (some []))
  | listAdd {x h : P} {xs : List P} : Free lists x → x ≠ h → lists h = some xs →
      Step lists (.listAdd x h) (Function.update (Function.update lists x none) h (some (x :: xs)))
  | listAddTail {x h : P} {xs : List P} : Free lists x → x ≠ h → lists h = some xs →
      Step lists (.listAddTail x h) (Function.update (Function.update lists x none) h (some (xs ++ [x])))
  | listDel {x h : P} {as bs : List P} : lists h = some (as ++ x :: bs) →
      Step lists (.listDel x) (Function.update lists h (some (as ++ bs)))
  | listDelInit {x h : P} {as bs : List P} : lists h = some (as ++ x :: bs) →
      Step lists (.listDelInit x) (Function.update (Function.update lists h (some (as ++ bs))) x (some []))
  | listMove {x h g : P} {as bs ys : List P} : lists h = some (as ++ x :: bs) →
      Function.update lists h (some (as ++ bs)) g = some ys →
      Step lists (.listMove x g)
        (Function.update (Function.update lists h (some (as ++ bs))) g (some (x :: ys)))
  | listMoveTail {x h g : P} {as bs ys : List P} : lists h = some (as ++ x :: bs) →
      Function.update lists h (some (as ++ bs)) g = some ys →
      Step lists (.listMoveTail x g)
        (Function.update (Function.update lists h (some (as ++ bs))) g (some (ys ++ [x])))
  | listSpliceNil {g h : P} : lists g = some [] → Step lists (.listSplice g h) lists
  | listSplice {g h : P} {xs ys : List P} : lists g = some ys → ys ≠ [] → g ≠ h → lists h = some xs →
      Step lists (.listSplice g h) (Function.update (Function.update lists g none) h (some (ys ++ xs)))
  | listSpliceInitNil {g h : P} : lists g = some [] → Step lists (.listSpliceInit g h) lists
  | listSpliceInit {g h : P} {xs ys : List P} : lists g = some ys → ys ≠ [] → g ≠ h → lists h = some xs →
      Step lists (.listSpliceInit g h)
        (Function.update (Function.update (Function.update lists g none) h (some (ys ++ xs))) g (some []))

/-- The family after one call after the other. -/
inductive Run : Heads P → List (ListOp P) → Heads P → Prop
  | nil (lists : Heads P) : Run lists [] lists
  | cons {lists lists' lists'' : Heads P} {op : ListOp P} {ops : List (ListOp P)} : Step lists op lists' →
      Run lists' ops lists'' → Run lists (op :: ops) lists''

variable {lists lists' : Heads P} {h g x : P} {xs ys as bs : List P}

/-! ## The calls through the library's operations -/

theorem initListHead_eq (m : Links P) (x : P) : initListHead m x = m.withLinks x x x := rfl

theorem listAdd_eq (m : Links P) (x h : P) : listAdd m x h = m.addHead x h := rfl

theorem listAddTail_eq (m : Links P) (x h : P) : listAddTail m x h = m.addTail x h := rfl

theorem listDel_eq (null : P) (m : Links P) (x : P) :
    listDel null m x = (m.unlink x).withLinks x null null := rfl

theorem listDelInit_eq (m : Links P) (x : P) : listDelInit m x = (m.unlink x).withLinks x x x := rfl

theorem listMove_eq (m : Links P) (x h : P) : listMove m x h = (m.unlink x).addHead x h := rfl

theorem listMoveTail_eq (m : Links P) (x h : P) : listMoveTail m x h = (m.unlink x).addTail x h := rfl

theorem listSpliceBetween_eq (m : Links P) (l h : P) : listSpliceBetween m l h = m.splice l h := rfl

/-! ## One call -/

/-- A free node leaves what it was the head of. -/
theorem loose_of_free (hf : Family m lists) (hx : Free lists x) : Loose (Function.update lists x none) x := by
  rcases hx with hx | hx
  · exact fun g ys hg => hx g ys (Links.lists_of_update_none hg).2
  · exact hf.loose_drop hx List.mem_cons_self

theorem listEmpty_iff (hf : Family m lists) (hl : lists h = some xs) : listEmpty m h = true ↔ xs = [] := by
  have hr := hf.ring h xs hl
  unfold listEmpty
  rw [decide_eq_true_eq, hr.next_head]
  cases xs with
  | nil => simp
  | cons a xs =>
      have hne : a ≠ h := fun he => (List.nodup_cons.mp hr.nodup).1 (he ▸ List.mem_cons_self)
      simp [hne]

theorem step_family (null : P) (hf : Family m lists) {op : ListOp P} (hs : Step lists op lists') :
    Family (runOp null m op) lists' := by
  cases hs with
  | @initListHead x hx =>
      have := (hf.drop x).init (loose_of_free hf hx)
      rw [Function.update_idem] at this
      rwa [runOp, initListHead_eq]
  | @listAdd x h xs hx hxh hl =>
      have hl' : Function.update lists x none h = some xs := by rwa [Function.update_of_ne hxh.symm]
      rw [runOp, listAdd_eq]
      exact (hf.drop x).addHead hl' (loose_of_free hf hx)
  | @listAddTail x h xs hx hxh hl =>
      have hl' : Function.update lists x none h = some xs := by rwa [Function.update_of_ne hxh.symm]
      rw [runOp, listAddTail_eq]
      exact (hf.drop x).addTail hl' (loose_of_free hf hx)
  | listDel hl =>
      obtain ⟨hf', hx⟩ := hf.unlink hl
      rw [runOp, listDel_eq]
      exact hf'.withLinks hx null null
  | listDelInit hl =>
      obtain ⟨hf', hx⟩ := hf.unlink hl
      rw [runOp, listDelInit_eq]
      exact hf'.init hx
  | listMove hl hg =>
      obtain ⟨hf', hx⟩ := hf.unlink hl
      rw [runOp, listMove_eq]
      exact hf'.addHead hg hx
  | listMoveTail hl hg =>
      obtain ⟨hf', hx⟩ := hf.unlink hl
      rw [runOp, listMoveTail_eq]
      exact hf'.addTail hg hx
  | @listSpliceNil g h hg =>
      have he : listEmpty m g = true := (listEmpty_iff hf hg).mpr rfl
      rwa [runOp, listSplice, if_pos he]
  | @listSplice g h xs ys hg hy hne hh =>
      have he : ¬ listEmpty m g = true := fun he => hy ((listEmpty_iff hf hg).mp he)
      rw [runOp, listSplice, if_neg he, listSpliceBetween_eq]
      exact (hf.splice hg hh hne hy).1
  | @listSpliceInitNil g h hg =>
      have he : listEmpty m g = true := (listEmpty_iff hf hg).mpr rfl
      rwa [runOp, listSpliceInit, if_pos he]
  | @listSpliceInit g h xs ys hg hy hne hh =>
      have he : ¬ listEmpty m g = true := fun he => hy ((listEmpty_iff hf hg).mp he)
      rw [runOp, listSpliceInit, if_neg he, listSpliceBetween_eq, initListHead_eq]
      obtain ⟨hf', hgl⟩ := hf.splice hg hh hne hy
      exact hf'.init hgl

theorem run_family (null : P) {ops : List (ListOp P)} (hr : Run lists ops lists') : ∀ {m : Links P}, Family m lists →
    Family (runOps null m ops) lists' := by
  induction hr with
  | nil => exact fun hf => hf
  | cons hs _ ih => exact fun hf => ih (step_family null hf hs)

theorem Run.append {lists'' : Heads P} {ops ops' : List (ListOp P)} (hr : Run lists ops lists')
    (hr' : Run lists' ops' lists'') : Run lists (ops ++ ops') lists'' := by
  induction hr with
  | nil => exact hr'
  | cons hs _ ih => exact .cons hs (ih hr')

/-- New nodes go to the tail of a list, one after the other. -/
theorem run_listAddTail (xs : List P) (hnd : xs.Nodup) (hl : lists h = some ys) (hx : ∀ x ∈ xs, Loose lists x) :
    Run lists (xs.map (ListOp.listAddTail · h)) (Function.update lists h (some (ys ++ xs))) := by
  induction xs generalizing lists ys with
  | nil =>
      rw [List.append_nil, ← hl, Function.update_eq_self]
      exact .nil lists
  | cons x xs ih =>
      obtain ⟨hnx, hnd⟩ := List.nodup_cons.mp hnd
      have hxl := hx x List.mem_cons_self
      have hnone : lists x = none := Option.eq_none_iff_forall_ne_some.mpr fun zs hz => hxl x zs hz List.mem_cons_self
      have hxh : x ≠ h := fun he => by
        rw [he, hl] at hnone
        cases hnone
      have hstep := Step.listAddTail (.inl hxl) hxh hl
      have hsame : Function.update lists x none = lists := by rw [← hnone, Function.update_eq_self]
      rw [hsame] at hstep
      refine .cons hstep ?_
      have hfresh : ∀ y ∈ xs, Loose (Function.update lists h (some (ys ++ [x]))) y := fun y hy => by
        refine (hx y (List.mem_cons_of_mem _ hy)).update fun hm => ?_
        rw [← List.cons_append, List.mem_append, List.mem_singleton] at hm
        rcases hm with hm | rfl
        · exact hx y (List.mem_cons_of_mem _ hy) h ys hl hm
        · exact hnx hy
      have hrest := ih hnd (Function.update_self ..) hfresh
      rwa [Function.update_idem, List.append_assoc] at hrest

/-! ## Reading a list -/

theorem entryOf_forward {σ : Type} (links : σ → Links P) (a : Entry h) :
    (forward links h).entryOf a.val = some a := dif_pos a.property

omit [DecidableEq P] in
/-- The entries of a ring, each known not to be the head. -/
theorem exists_entries (hr : Ring m h xs) : ∃ es : List (Entry h), es.map Subtype.val = xs :=
  ⟨xs.attach.map fun a => ⟨a.val, fun he => (List.nodup_cons.mp hr.nodup).1 (he ▸ a.property)⟩, by simp⟩

theorem listForEach_ring (hr : Ring m h xs) {turns : Nat} (hlt : xs.length < turns) :
    listForEach m h turns = some xs := by
  obtain ⟨es, hes⟩ := exists_entries hr
  -- the entries seen and those ahead make up the list
  have hbody : ∀ (a : Entry h) (ahead : List (Entry h)) (seen : List P), seen ++ (a :: ahead).map Subtype.val = xs →
      ∃ seen', note seen a = some seen' ∧ seen' ++ ahead.map Subtype.val = xs ∧
        m.next a.val = ListLoop.nodeAt (forward (fun _ : List P => m) h) Subtype.val ahead := fun a ahead seen hi => by
    refine ⟨seen ++ [a.val], rfl, ?_, ?_⟩
    · rw [← hi, List.map_cons, List.append_assoc, List.singleton_append]
    · have hr' := hr
      rw [← hi, List.map_cons] at hr'
      exact hr'.next
  have hstart : [] ++ es.map Subtype.val = xs := hes
  obtain ⟨seen, hseen, hend⟩ := ListLoop.forEach_ends (forward (fun _ : List P => m) h) Subtype.val
    (fun a => entryOf_forward _ a) (fun a => a.property) (I := fun ahead seen => seen ++ ahead.map Subtype.val = xs)
    hbody hstart (by rw [ListLoop.nodeAt, hes]; exact hr.next_head) (by rwa [← List.length_map Subtype.val, hes])
  rw [List.map_nil, List.append_nil] at hend
  rw [← hend]
  exact hseen

theorem listForEachPrev_ring (hr : Ring m h xs) {turns : Nat} (hlt : xs.length < turns) :
    listForEachPrev m h turns = some xs.reverse := by
  have hback : listForEach ⟨m.prev, m.next⟩ h turns = some xs.reverse :=
    listForEach_ring hr.reverse (by rwa [List.length_reverse])
  exact hback

/-- The calls of list.h mean what they say: whatever the memory held, after a run of calls that treats
heads as heads and entries as entries each list is read forwards and backwards as the family has it,
and is found empty if it is. -/
theorem runOps_refine (null : P) (m : Links P) {ops : List (ListOp P)} (hr : Run (fun _ => none) ops lists)
    (hl : lists h = some xs) {turns : Nat} (hlt : xs.length < turns) :
    listForEach (runOps null m ops) h turns = some xs ∧
      listForEachPrev (runOps null m ops) h turns = some xs.reverse ∧
      (listEmpty (runOps null m ops) h = true ↔ xs = []) := by
  have hf := run_family null hr (Family.empty m)
  have hring := hf.ring h xs hl
  exact ⟨listForEach_ring hring hlt, listForEachPrev_ring hring hlt, listEmpty_iff hf hl⟩

/-- Two lists, of which the first one gets a node and is joined to the second one. -/
theorem runOps_refine_joined :
    listForEach (runOps 0 ⟨id, id⟩ [.initListHead 1, .initListHead 2, .listAdd 3 1, .listSplice 1 2]) 2 2 = some [3] ∧
    listForEachPrev (runOps 0 ⟨id, id⟩ [.initListHead 1, .initListHead 2, .listAdd 3 1, .listSplice 1 2]) 2 2 =
      some [3] ∧
    (listEmpty (runOps 0 ⟨id, id⟩ [.initListHead 1, .initListHead 2, .listAdd 3 1, .listSplice 1 2]) 2 = true ↔
      [3] = []) := by
  have hnone : ∀ x : Nat, Loose (fun _ => none) x := fun x _ _ h => nomatch h
  have h2 : Loose (Function.update (fun _ => none) 1 (some [])) 2 := (hnone 2).update (by decide)
  have h3 : Loose (Function.update (Function.update (fun _ => none) 1 (some [])) 2 (some [])) 3 :=
    ((hnone 3).update (by decide)).update (by decide)
  exact runOps_refine 0 ⟨id, id⟩ (.cons (.initListHead (.inl (hnone 1))) (.cons (.initListHead (.inl h2))
    (.cons (.listAdd (.inl h3) (by decide) rfl)
      (.cons (.listSplice rfl (by decide) (by decide) rfl) (.nil _))))) rfl (by decide)

/-! ## The safe loop -/

/-- The list of `g`, which was `ys`, with the entries of `seen` that are moved to its head or to its tail. -/
def gathered (choose : P → Verdict P) (seen : List P) (g : P) (ys : List P) : List P :=
  (seen.filter (choose · = .move g)).reverse ++ ys ++ seen.filter (choose · = .moveTail g)

/-- The family when the loop over the list of `h` has come to the entries `seen` and the entries
`ahead` follow. -/
def sorted (choose : P → Verdict P) (lists : Heads P) (h : P) (seen ahead : List P) : Heads P := fun g =>
  if g = h then some (seen.filter (choose · = .keep) ++ ahead)
  else if g ∈ seen ∧ choose g = .delInit then some []
  else (lists g).map (gathered choose seen g)

variable {choose : P → Verdict P} {seen ahead : List P} {a t : P}

omit [DecidableEq P] in
theorem filter_concat_neg {p : P → Bool} (hp : p a = false) : (seen ++ [a]).filter p = seen.filter p := by
  rw [List.filter_append, List.filter_singleton, hp]
  simp

omit [DecidableEq P] in
theorem filter_concat_pos {p : P → Bool} (hp : p a = true) : (seen ++ [a]).filter p = seen.filter p ++ [a] := by
  rw [List.filter_append, List.filter_singleton, hp]
  rfl

theorem gathered_move (hc : choose a = .move g) :
    gathered choose (seen ++ [a]) g ys = a :: gathered choose seen g ys := by
  unfold gathered
  rw [filter_concat_pos (by rw [hc]; simp), filter_concat_neg (by rw [hc]; rfl), List.reverse_append]
  rfl

theorem gathered_moveTail (hc : choose a = .moveTail g) :
    gathered choose (seen ++ [a]) g ys = gathered choose seen g ys ++ [a] := by
  unfold gathered
  rw [filter_concat_neg (by rw [hc]; rfl), filter_concat_pos (by rw [hc]; simp), List.append_assoc]
  simp only [List.append_assoc]

theorem gathered_of_ne (hmove : choose a ≠ .move g) (htail : choose a ≠ .moveTail g) :
    gathered choose (seen ++ [a]) g = gathered choose seen g := by
  funext ys
  unfold gathered
  rw [filter_concat_neg (p := (choose · = .move g)) (decide_eq_false hmove),
    filter_concat_neg (p := (choose · = .moveTail g)) (decide_eq_false htail)]

theorem sorted_self : sorted choose lists h seen ahead h = some (seen.filter (choose · = .keep) ++ ahead) :=
  if_pos rfl

theorem sorted_start (hl : lists h = some xs) : sorted choose lists h [] xs = lists := by
  funext g
  unfold sorted
  by_cases hg : g = h
  · rw [if_pos hg, hg, hl]
    rfl
  · rw [if_neg hg, if_neg (fun hm => List.not_mem_nil hm.1)]
    have hid : gathered choose [] g = id := by
      funext ys
      exact List.append_nil ys
    rw [hid, Option.map_id, id]

/-- The list of another head, as far as the loop has come. -/
theorem sorted_head (hg : g ≠ h) (hseen : g ∉ seen) (hl : lists g = some ys) :
    sorted choose lists h seen ahead g = some (gathered choose seen g ys) := by
  unfold sorted
  rw [if_neg hg, if_neg (fun hm => hseen hm.1), hl, Option.map_some]

/-- An entry that is not kept is in the list no more. -/
theorem sorted_taken (hc : choose a ≠ .keep) :
    sorted choose lists h (seen ++ [a]) ahead h = some (seen.filter (choose · = .keep) ++ ahead) := by
  rw [sorted_self, filter_concat_neg (p := (choose · = .keep)) (decide_eq_false hc)]

/-- An entry changes nothing in a list that it is not moved to. -/
theorem sorted_of_ne (hg : g ≠ h) (hinit : choose a = .delInit → g ≠ a) (hmove : choose a ≠ .move g)
    (htail : choose a ≠ .moveTail g) :
    sorted choose lists h (seen ++ [a]) ahead g = sorted choose lists h seen (a :: ahead) g := by
  have hiff : (g ∈ seen ++ [a] ∧ choose g = .delInit) ↔ g ∈ seen ∧ choose g = .delInit := by
    rw [List.mem_append, List.mem_singleton]
    refine ⟨fun hm => ⟨hm.1.resolve_right ?_, hm.2⟩, fun hm => ⟨.inl hm.1, hm.2⟩⟩
    rintro rfl
    exact hinit hm.2 rfl
  unfold sorted
  rw [if_neg hg, if_neg hg, gathered_of_ne hmove htail]
  simp only [hiff]

theorem sorted_keep (hc : choose a = .keep) :
    sorted choose lists h (seen ++ [a]) ahead = sorted choose lists h seen (a :: ahead) := by
  funext g
  by_cases hg : g = h
  · rw [hg, sorted_self, sorted_self, filter_concat_pos (by rw [hc]; rfl), List.append_assoc]
    rfl
  · exact sorted_of_ne hg (by simp [hc]) (by simp [hc])
      (by simp [hc])

theorem sorted_del (hc : choose a = .del) : sorted choose lists h (seen ++ [a]) ahead =
    Function.update (sorted choose lists h seen (a :: ahead)) h (some (seen.filter (choose · = .keep) ++ ahead)) := by
  funext g
  by_cases hg : g = h
  · rw [hg, Function.update_self, sorted_taken (by simp [hc])]
  · rw [Function.update_of_ne hg]
    exact sorted_of_ne hg (by simp [hc]) (by simp [hc])
      (by simp [hc])

theorem sorted_delInit (hc : choose a = .delInit) (hah : a ≠ h) : sorted choose lists h (seen ++ [a]) ahead =
    Function.update (Function.update (sorted choose lists h seen (a :: ahead)) h
      (some (seen.filter (choose · = .keep) ++ ahead))) a (some []) := by
  funext g
  by_cases hga : g = a
  · rw [hga, Function.update_self]
    unfold sorted
    rw [if_neg hah, if_pos ⟨List.mem_append_right _ (List.mem_singleton_self a), hc⟩]
  · rw [Function.update_of_ne hga]
    by_cases hg : g = h
    · rw [hg, Function.update_self, sorted_taken (by simp [hc])]
    · rw [Function.update_of_ne hg]
      exact sorted_of_ne hg (fun _ => hga) (by simp [hc])
        (by simp [hc])

/-- A move changes the list that the entry goes to and the one that it comes from. -/
theorem sorted_moved (hc : choose a = .move t ∨ choose a = .moveTail t) (hth : t ≠ h) (hseen : t ∉ seen ++ [a])
    (ht : lists t = some ys) : sorted choose lists h (seen ++ [a]) ahead =
      Function.update (Function.update (sorted choose lists h seen (a :: ahead)) h
        (some (seen.filter (choose · = .keep) ++ ahead))) t (some (gathered choose (seen ++ [a]) t ys)) := by
  have hkeep : choose a ≠ .keep ∧ choose a ≠ .delInit := by
    rcases hc with hc | hc <;> simp [hc]
  funext g
  by_cases hgt : g = t
  · rw [hgt, Function.update_self, sorted_head hth hseen ht]
  · rw [Function.update_of_ne hgt]
    by_cases hg : g = h
    · rw [hg, Function.update_self, sorted_taken hkeep.1]
    · rw [Function.update_of_ne hg]
      refine sorted_of_ne hg (fun hd => absurd hd hkeep.2) (fun hm => ?_) fun hm => ?_
      · rcases hc with hc | hc
        · exact hgt (Verdict.move.inj (hm.symm.trans hc))
        · cases hm.symm.trans hc
      · rcases hc with hc | hc
        · cases hm.symm.trans hc
        · exact hgt (Verdict.moveTail.inj (hm.symm.trans hc))

/-- Where entries may be moved to: another list. -/
def Targets (choose : P → Verdict P) (lists : Heads P) (h : P) (xs : List P) : Prop :=
  ∀ a ∈ xs, ∀ t, choose a = .move t ∨ choose a = .moveTail t → t ≠ h ∧ ∃ ys, lists t = some ys

/-- One turn of the loop: the entry goes where it is meant to. -/
theorem sortOut_family (null : P) {a : Entry h}
    (htargets : ∀ t, choose a.val = .move t ∨ choose a.val = .moveTail t →
      t ≠ h ∧ t ∉ seen ++ [a.val] ∧ ∃ ys, lists t = some ys)
    (hf : Family m (sorted choose lists h seen (a.val :: ahead))) :
    ∃ m', sortOut null choose (m, seen) a = some (m', seen ++ [a.val]) ∧
      Family m' (sorted choose lists h (seen ++ [a.val]) ahead) := by
  -- the list that an entry is moved to, once it is out of its own
  have htarget : ∀ t ys, t ≠ h → t ∉ seen ++ [a.val] → lists t = some ys →
      Function.update (sorted choose lists h seen (a.val :: ahead)) h
        (some (seen.filter (choose · = .keep) ++ ahead)) t = some (gathered choose seen t ys) := by
    intro t ys hth hseen ht
    rw [Function.update_of_ne hth]
    exact sorted_head hth (fun hm => hseen (List.mem_append_left _ hm)) ht
  unfold sortOut
  cases hc : choose a.val with
  | keep =>
      rw [← sorted_keep hc] at hf
      exact ⟨m, rfl, hf⟩
  | del =>
      refine ⟨listDel null m a.val, rfl, ?_⟩
      rw [sorted_del hc]
      exact step_family null hf (.listDel sorted_self)
  | delInit =>
      refine ⟨listDelInit m a.val, rfl, ?_⟩
      rw [sorted_delInit hc a.property]
      exact step_family null hf (.listDelInit sorted_self)
  | move t =>
      obtain ⟨hth, hseen, ys, ht⟩ := htargets t (.inl hc)
      refine ⟨listMove m a.val t, rfl, ?_⟩
      rw [sorted_moved (.inl hc) hth hseen ht, gathered_move hc]
      exact step_family null hf (.listMove sorted_self (htarget t ys hth hseen ht))
  | moveTail t =>
      obtain ⟨hth, hseen, ys, ht⟩ := htargets t (.inr hc)
      refine ⟨listMoveTail m a.val t, rfl, ?_⟩
      rw [sorted_moved (.inr hc) hth hseen ht, gathered_moveTail hc]
      exact step_family null hf (.listMoveTail sorted_self (htarget t ys hth hseen ht))

/-- `list_for_each_safe` bears that its body takes the entry it is at out of the list, makes it the head of an
empty one, or moves it to the head or the tail of another list: it comes to every entry once, in the order of
the list, and in the end the list holds the entries that were kept, every other list those that were moved
there, in their old order at the tail and the other way round at the head. -/
theorem listForEachSafe_sorts (null : P) (choose : P → Verdict P) (hf : Family m lists) (hl : lists h = some xs)
    (htargets : Targets choose lists h xs) {turns : Nat} (hlt : xs.length < turns) :
    ∃ m', listForEachSafe null choose m h turns = some (m', xs) ∧ Family m' (sorted choose lists h xs []) := by
  obtain ⟨es, hes⟩ := exists_entries (hf.ring h xs hl)
  have hbody : ∀ (a : Entry h) (ahead : List (Entry h)) (s : Links P × List P),
      s.2 ++ (a :: ahead).map Subtype.val = xs ∧ Family s.1 (sorted choose lists h s.2 ((a :: ahead).map Subtype.val)) →
        ∃ s', sortOut null choose s a = some s' ∧ s'.2 ++ ahead.map Subtype.val = xs ∧
          Family s'.1 (sorted choose lists h s'.2 (ahead.map Subtype.val)) := fun a ahead s hi => by
    have ha : a.val ∈ xs := by
      rw [← hi.1]
      exact List.mem_append_right _ List.mem_cons_self
    have hplaces : ∀ t, choose a.val = .move t ∨ choose a.val = .moveTail t →
        t ≠ h ∧ t ∉ s.2 ++ [a.val] ∧ ∃ ys, lists t = some ys := fun t hc => by
      obtain ⟨hth, ys, ht⟩ := htargets a.val ha t hc
      refine ⟨hth, fun hm => ?_, ys, ht⟩
      -- a head is in no other list
      refine hf.disjoint t ys h xs ht hl hth t List.mem_cons_self (List.mem_cons_of_mem _ ?_)
      rw [← hi.1, List.map_cons, List.append_cons]
      exact List.mem_append_left _ hm
    obtain ⟨m', hs, hf'⟩ := sortOut_family null hplaces hi.2
    refine ⟨(m', s.2 ++ [a.val]), hs, ?_, hf'⟩
    rw [← hi.1, List.map_cons, List.append_assoc, List.singleton_append]
  have hstart : [] ++ es.map Subtype.val = xs ∧ Family m (sorted choose lists h [] (es.map Subtype.val)) :=
    ⟨hes, by rw [hes, sorted_start hl]; exact hf⟩
  obtain ⟨⟨m', seen⟩, hrun, hend, hf'⟩ := ListLoop.forEachSafe_ends (forward Prod.fst h) Subtype.val
    (fun a => entryOf_forward _ a) (fun a => a.property)
    (I := fun ahead s => s.2 ++ ahead.map Subtype.val = xs ∧
      Family s.1 (sorted choose lists h s.2 (ahead.map Subtype.val)))
    (fun a ahead s hi => (hi.2.ring h _ sorted_self).next) hbody (s := (m, [])) hstart
    (by rw [ListLoop.nodeAt, hes]; exact (hf.ring h xs hl).next_head)
    (by rwa [← List.length_map Subtype.val, hes])
  simp only [List.map_nil, List.append_nil] at hend hf'
  rw [hend] at hf'
  refine ⟨m', ?_, hf'⟩
  rw [← hend]
  exact hrun

/-- One entry for each thing that may happen to it. -/
def verdicts : Nat → Verdict Nat
  | 3 => .move 2
  | 4 => .del
  | 5 => .moveTail 2
  | 6 => .delInit
  | 7 => .move 2
  | _ => .keep

/-- Two empty lists. -/
def twoHeads : Heads Nat := Function.update (Function.update (fun _ => none) 1 (some [])) 2 (some [])

/-- A list of six entries and one of a single entry. -/
def sixAndOne : Heads Nat :=
  Function.update (Function.update twoHeads 1 (some [3, 4, 5, 6, 7, 8])) 2 (some [9])

theorem twoHeads_loose {x : Nat} (h1 : x ≠ 1) (h2 : x ≠ 2) : Loose twoHeads x := by
  have hnone : Loose (fun _ => none) x := fun _ _ h => nomatch h
  exact (hnone.update (by simpa using h1)).update (by simpa using h2)

theorem sixAndOne_run : Run (fun _ => none) ([.initListHead 1, .initListHead 2] ++
    ([3, 4, 5, 6, 7, 8].map (ListOp.listAddTail · 1) ++ [9].map (ListOp.listAddTail · 2))) sixAndOne := by
  have hnone : ∀ x : Nat, Loose (fun _ => none) x := fun x _ _ h => nomatch h
  have h2 : Loose (Function.update (fun _ => none) 1 (some [])) 2 := (hnone 2).update (by decide)
  have hsix : Run twoHeads ([3, 4, 5, 6, 7, 8].map (ListOp.listAddTail · 1))
      (Function.update twoHeads 1 (some [3, 4, 5, 6, 7, 8])) :=
    run_listAddTail [3, 4, 5, 6, 7, 8] (by decide) (show twoHeads 1 = some [] from rfl) fun x hx => twoHeads_loose (by grind) (by grind)
  have hone : Run (Function.update twoHeads 1 (some [3, 4, 5, 6, 7, 8])) ([9].map (ListOp.listAddTail · 2)) sixAndOne :=
    run_listAddTail [9] (by decide) (show _ = some [] from rfl) fun x hx => (twoHeads_loose (by grind) (by grind)).update (by grind)
  exact .cons (.initListHead (.inl (hnone 1))) (.cons (.initListHead (.inl h2)) (hsix.append hone))

/-- The nodes 7 and 3 go in front of the one that is in the other list already, the node 5 behind it. -/
theorem listForEachSafe_sorts_mixed :
    let m := runOps 0 ⟨id, id⟩ ([.initListHead 1, .initListHead 2] ++
      ([3, 4, 5, 6, 7, 8].map (ListOp.listAddTail · 1) ++ [9].map (ListOp.listAddTail · 2)))
    ∃ m' lists, listForEachSafe 0 verdicts m 1 7 = some (m', [3, 4, 5, 6, 7, 8]) ∧ Family m' lists ∧
      lists 1 = some [8] ∧ lists 2 = some [7, 3, 9, 5] ∧ lists 6 = some [] := by
  intro m
  have hf : Family m sixAndOne := run_family 0 sixAndOne_run (Family.empty ⟨id, id⟩)
  have htargets : Targets verdicts sixAndOne 1 [3, 4, 5, 6, 7, 8] := fun a _ t ht => by
    obtain rfl : t = 2 := by
      unfold verdicts at ht
      split at ht <;> simp_all
    exact ⟨by decide, [9], rfl⟩
  obtain ⟨m', hloop, hf'⟩ : ∃ m', listForEachSafe 0 verdicts m 1 7 = some (m', [3, 4, 5, 6, 7, 8]) ∧
      Family m' (sorted verdicts sixAndOne 1 [3, 4, 5, 6, 7, 8] []) :=
    listForEachSafe_sorts 0 verdicts hf rfl htargets (by decide)
  exact ⟨m', _, hloop, hf', rfl, rfl, rfl⟩

end Taomee.Lists
