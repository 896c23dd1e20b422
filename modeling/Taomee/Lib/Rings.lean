import Taomee.Lib.DList

/-!
# Lists that come and go

Nodes are added behind the head of a ring, and the nodes of one ring are joined to another. Which
nodes are heads changes from step to step, so a family of rings is a partial map from heads to lists.
-/

namespace Taomee.Links

variable {P : Type} [DecidableEq P]

/-- `x` behind the head, in front of the first node. -/
def addHead (m : Links P) (x h : P) : Links P := m.insert x h (m.next h)

/-- The nodes of the list of `l` between the head `h` and its first node. -/
def splice (m : Links P) (l h : P) : Links P :=
  let first := m.next l
  let last := m.prev l
  let at' := m.next h
  (((m.setPrev first h).setNext h first).setNext last at').setPrev at' last

variable {m m' : Links P} {h l x : P} {xs ys as bs : List P}

/-! ## Adding at the head -/

theorem addHead_next (m : Links P) (x h a : P) : (m.addHead x h).next a =
    if a = h then x else if a = x then m.next h else m.next a := by
  simp [addHead, insert, setNext, setPrev, Function.update_apply]

theorem addHead_prev (m : Links P) (x h a : P) : (m.addHead x h).prev a =
    if a = x then h else if a = m.next h then x else m.prev a := by
  simp [addHead, insert, setNext, setPrev, Function.update_apply]

omit [DecidableEq P] in
/-- What follows the head of a ring, down to the head again. -/
theorem Ring.exists_first (hr : Ring m h xs) :
    ∃ n zs, xs ++ [h] = n :: zs ∧ m.next h = n ∧ m.prev n = h ∧ (n :: zs).IsChain m.Adj ∧ (n :: zs).Nodup := by
  obtain ⟨n, zs, hn⟩ : ∃ n zs, xs ++ [h] = n :: zs := List.exists_cons_of_ne_nil (by simp)
  have hc := hr.chain
  rw [List.cons_append, hn, List.isChain_cons_cons] at hc
  have hnd : (xs ++ [h]).Nodup := (List.perm_append_singleton h xs).nodup_iff.mpr hr.nodup
  exact ⟨n, zs, hn, hc.1.1, hc.1.2, hc.2, hn ▸ hnd⟩

omit [DecidableEq P] in
theorem mem_of_dropLast_eq {n : P} {zs : List P} (hn : xs ++ [h] = n :: zs) {a : P} (ha : a ∈ (n :: zs).dropLast) :
    a ∈ xs := by
  rwa [← hn, List.dropLast_concat] at ha

omit [DecidableEq P] in
theorem ring_mem_of_first {n : P} {zs : List P} (hn : xs ++ [h] = n :: zs) {a : P} (ha : a ∈ n :: zs) : a ∈ h :: xs := by
  rw [← hn] at ha
  simpa [or_comm] using ha

theorem Ring.addHead (hr : Ring m h xs) (hx : x ∉ h :: xs) : Ring (m.addHead x h) h (x :: xs) := by
  obtain ⟨n, zs, hn, hnext, -, hchain, hnd⟩ := hr.exists_first
  have hxh : h ≠ x := fun he => hx (by rw [he]; simp)
  have hxn : n ≠ x := fun he => hx (ring_mem_of_first hn (he ▸ List.mem_cons_self))
  have hhx : h ∉ xs := (List.nodup_cons.mp hr.nodup).1
  refine ⟨?_, ?_⟩
  · rw [List.nodup_cons, List.nodup_cons]
    refine ⟨?_, fun hm => hx (List.mem_cons_of_mem _ hm), (List.nodup_cons.mp hr.nodup).2⟩
    rintro (_ | ⟨_, hm⟩)
    · exact hxh rfl
    · exact hhx hm
  · have hcat : h :: x :: xs ++ [h] = h :: x :: n :: zs := by rw [List.cons_append, List.cons_append, hn]
    rw [hcat, List.isChain_cons_cons, List.isChain_cons_cons]
    refine ⟨⟨?_, ?_⟩, ⟨?_, ?_⟩, isChain_congr hchain (fun a ha => ?_) fun b hb => ?_⟩
    · rw [addHead_next, if_pos rfl]
    · rw [addHead_prev, if_pos rfl]
    · rw [addHead_next, if_neg hxh.symm, if_pos rfl, hnext]
    · rw [addHead_prev, if_neg hxn, if_pos hnext.symm]
    · have hax := mem_of_dropLast_eq hn ha
      have hah : a ≠ h := fun he => hhx (he ▸ hax)
      have hax' : a ≠ x := fun he => hx (he ▸ List.mem_cons_of_mem _ hax)
      rw [addHead_next, if_neg hah, if_neg hax']
    · have hbn : b ≠ n := fun he => (List.nodup_cons.mp hnd).1 (he ▸ hb)
      have hbx : b ≠ x := fun he => hx (he ▸ ring_mem_of_first hn (List.mem_cons_of_mem _ hb))
      rw [addHead_prev, hnext, if_neg hbx, if_neg hbn]

theorem Ring.addHead_frame (hr : Ring m h xs) {a : P} (ha : a ∉ h :: xs) (hax : a ≠ x) :
    (m.addHead x h).next a = m.next a ∧ (m.addHead x h).prev a = m.prev a := by
  obtain ⟨n, zs, hn, hnext, -⟩ := hr.exists_first
  have hah : a ≠ h := fun he => ha (by rw [he]; simp)
  have han : a ≠ n := fun he => ha (ring_mem_of_first hn (he ▸ List.mem_cons_self))
  rw [addHead_next, addHead_prev, hnext, if_neg hah, if_neg hax, if_neg hax, if_neg han]
  exact ⟨rfl, rfl⟩

/-! ## Joining two rings -/

theorem splice_next (m : Links P) (l h a : P) : (m.splice l h).next a =
    if a = m.prev l then m.next h else if a = h then m.next l else m.next a := by
  simp [splice, setNext, setPrev, Function.update_apply]

theorem splice_prev (m : Links P) (l h a : P) : (m.splice l h).prev a =
    if a = m.next h then m.prev l else if a = m.next l then h else m.prev a := by
  simp [splice, setNext, setPrev, Function.update_apply]

omit [DecidableEq P] in
/-- The nodes of a list that is not empty, with the first and the last one told. -/
theorem Ring.ends (hr : Ring m l ys) (hy : ys ≠ []) :
    ∃ b zs as c, ys = b :: zs ∧ ys = as ++ [c] ∧ m.next l = b ∧ m.prev l = c ∧ ys.IsChain m.Adj := by
  obtain ⟨b, zs, rfl⟩ := List.exists_cons_of_ne_nil hy
  obtain ⟨as, c, hc⟩ : ∃ as c, b :: zs = as ++ [c] :=
    ⟨(b :: zs).dropLast, (b :: zs).getLast (by simp), (List.dropLast_append_getLast _).symm⟩
  have hch := hr.chain
  have hcat : l :: (b :: zs) ++ [l] = (l :: as) ++ c :: [l] := by rw [hc]; simp
  have hlast := hch
  rw [hcat, List.isChain_append_cons_cons] at hlast
  rw [List.cons_append, List.cons_append, List.isChain_cons_cons] at hch
  have hbody : ((b :: zs) ++ [l]).IsChain m.Adj := hch.2
  exact ⟨b, zs, as, c, rfl, hc, hch.1.1, hlast.2.1.2, hbody.left_of_append⟩

theorem Ring.splice (hl : Ring m l ys) (hr : Ring m h xs) (hdis : ∀ a ∈ l :: ys, a ∉ h :: xs) (hy : ys ≠ []) :
    Ring (m.splice l h) h (ys ++ xs) := by
  obtain ⟨b, zs, as, c, hb, hc, hnextl, hprevl, hys⟩ := hl.ends hy
  obtain ⟨n, ws, hn, hnexth, -, hxs, hnd⟩ := hr.exists_first
  have hyh : ∀ a ∈ ys, a ∉ h :: xs := fun a ha => hdis a (List.mem_cons_of_mem _ ha)
  have hcys : c ∈ ys := by rw [hc]; simp
  have hbys : b ∈ ys := by rw [hb]; simp
  have hnr : n ∈ h :: xs := ring_mem_of_first hn List.mem_cons_self
  have hysnd : ys.Nodup := (List.nodup_cons.mp hl.nodup).2
  have hhx : h ∉ xs := (List.nodup_cons.mp hr.nodup).1
  have hhy : h ∉ ys := fun hm => hyh h hm List.mem_cons_self
  refine ⟨?_, ?_⟩
  · rw [List.nodup_cons, List.nodup_append]
    refine ⟨?_, hysnd, (List.nodup_cons.mp hr.nodup).2, fun a ha d hd he => hyh a ha (he ▸ List.mem_cons_of_mem _ hd)⟩
    rw [List.mem_append]
    exact fun hm => hm.elim hhy hhx
  · have hcat : h :: (ys ++ xs) ++ [h] = h :: (as ++ c :: n :: ws) := by
      rw [List.cons_append, List.append_assoc, hn, hc]
      simp
    have hfirst : h :: (as ++ c :: n :: ws) = h :: b :: (zs ++ n :: ws) := by
      have : as ++ c :: n :: ws = as ++ [c] ++ n :: ws := by simp
      rw [this, ← hc, hb]
      rfl
    have hasc : (as ++ [c]).IsChain (m.splice l h).Adj := by
      rw [hc] at hys
      refine isChain_congr hys (fun a ha => ?_) fun d hd => ?_
      · -- the last node of the list is not among those in front of it
        rw [List.dropLast_concat] at ha
        have hays : a ∈ ys := by rw [hc]; exact List.mem_append_left _ ha
        have hac : a ≠ c := by
          rintro rfl
          rw [hc, List.nodup_append] at hysnd
          exact hysnd.2.2 a ha a (by simp) rfl
        have hah : a ≠ h := fun he => hhy (he ▸ hays)
        rw [splice_next, hprevl, if_neg hac, if_neg hah]
      · rw [← hc, hb, List.tail_cons] at hd
        have hdys : d ∈ ys := by rw [hb]; exact List.mem_cons_of_mem _ hd
        have hdn : d ≠ n := fun he => hyh d hdys (he ▸ hnr)
        have hdb : d ≠ b := by
          rintro rfl
          rw [hb] at hysnd
          exact (List.nodup_cons.mp hysnd).1 hd
        rw [splice_prev, hnexth, hnextl, if_neg hdn, if_neg hdb]
    have hcn : (m.splice l h).Adj c n := by
      refine ⟨?_, ?_⟩
      · rw [splice_next, hprevl, if_pos rfl, hnexth]
      · rw [splice_prev, hnexth, if_pos rfl, hprevl]
    have hnws : (n :: ws).IsChain (m.splice l h).Adj := by
      refine isChain_congr hxs (fun a ha => ?_) fun d hd => ?_
      · have hax := mem_of_dropLast_eq hn ha
        have hac : a ≠ c := fun he => hyh c hcys (he ▸ List.mem_cons_of_mem _ hax)
        have hah : a ≠ h := fun he => hhx (he ▸ hax)
        rw [splice_next, hprevl, if_neg hac, if_neg hah]
      · have hdn : d ≠ n := fun he => (List.nodup_cons.mp hnd).1 (he ▸ hd)
        have hdb : d ≠ b := fun he => hyh b hbys (he ▸ ring_mem_of_first hn (List.mem_cons_of_mem _ hd))
        rw [splice_prev, hnexth, hnextl, if_neg hdn, if_neg hdb]
    have htail : (b :: (zs ++ n :: ws)).IsChain (m.splice l h).Adj := by
      have hjoin : b :: (zs ++ n :: ws) = as ++ c :: n :: ws := (List.cons.inj hfirst).2.symm
      rw [hjoin, List.isChain_append_cons_cons]
      exact ⟨hasc, hcn, hnws⟩
    rw [hcat, hfirst, List.isChain_cons_cons]
    refine ⟨⟨?_, ?_⟩, htail⟩
    · have hhc : h ≠ c := fun he => hhy (he ▸ hcys)
      rw [splice_next, hprevl, if_neg hhc, if_pos rfl, hnextl]
    · have hbn : b ≠ n := fun he => hyh b hbys (he ▸ hnr)
      rw [splice_prev, hnexth, hnextl, if_neg hbn, if_pos rfl]

theorem Ring.splice_frame (hl : Ring m l ys) (hr : Ring m h xs) (hy : ys ≠ []) {a : P} (hal : a ∉ l :: ys)
    (hah : a ∉ h :: xs) : (m.splice l h).next a = m.next a ∧ (m.splice l h).prev a = m.prev a := by
  obtain ⟨b, zs, as, c, hb, hc, hnextl, hprevl, -⟩ := hl.ends hy
  obtain ⟨n, ws, hn, hnexth, -⟩ := hr.exists_first
  have hac : a ≠ c := fun he => hal (by rw [he, hc]; simp)
  have hab : a ≠ b := fun he => hal (by rw [he, hb]; simp)
  have han : a ≠ n := fun he => hah (ring_mem_of_first hn (he ▸ List.mem_cons_self))
  have hah' : a ≠ h := fun he => hah (by rw [he]; simp)
  rw [splice_next, splice_prev, hnexth, hnextl, hprevl, if_neg hac, if_neg hah', if_neg han, if_neg hab]
  exact ⟨rfl, rfl⟩

/-! ## Reading a ring -/

omit [DecidableEq P] in
/-- The ring read backwards. -/
theorem Ring.reverse (hr : Ring m h xs) : Ring ⟨m.prev, m.next⟩ h xs.reverse where
  nodup := by
    have hnd := hr.nodup
    rw [List.nodup_cons] at hnd ⊢
    exact ⟨fun hm => hnd.1 (List.mem_reverse.mp hm), List.nodup_reverse.mpr hnd.2⟩
  chain := by
    have hcat : h :: xs.reverse ++ [h] = (h :: xs ++ [h]).reverse := by simp
    rw [hcat, List.isChain_reverse]
    exact hr.chain.imp fun a b hab => ⟨hab.2, hab.1⟩

omit [DecidableEq P] in
/-- A node linked to itself is the head of the empty list. -/
theorem Ring.self (hn : m.next x = x) (hp : m.prev x = x) : Ring m x [] where
  nodup := List.nodup_singleton x
  chain := .cons_cons ⟨hn, hp⟩ (.singleton x)

/-! ## Families with changing heads -/

/-- The heads and their lists, no node in two of them. -/
structure Family (m : Links P) (lists : P → Option (List P)) : Prop where
  ring : ∀ h xs, lists h = some xs → Ring m h xs
  disjoint : ∀ h xs g ys, lists h = some xs → lists g = some ys → h ≠ g → ∀ a ∈ h :: xs, a ∉ g :: ys

omit [DecidableEq P] in
/-- `x` is in none of the lists and no head. -/
def Loose (lists : P → Option (List P)) (x : P) : Prop := ∀ g ys, lists g = some ys → x ∉ g :: ys

variable {lists : P → Option (List P)}

omit [DecidableEq P] in
theorem Family.empty (m : Links P) : Family m fun _ => none where
  ring := fun _ _ he => nomatch he
  disjoint := fun _ _ _ _ he => nomatch he

theorem lists_of_update {zs ys : List P} {g : P} (hg : Function.update lists h (some zs) g = some ys) :
    g = h ∧ ys = zs ∨ g ≠ h ∧ lists g = some ys := by
  by_cases he : g = h
  · rw [he, Function.update_self] at hg
    exact .inl ⟨he, (Option.some.inj hg).symm⟩
  · rw [Function.update_of_ne he] at hg
    exact .inr ⟨he, hg⟩

theorem lists_of_update_none {ys : List P} {g : P} (hg : Function.update lists h none g = some ys) :
    g ≠ h ∧ lists g = some ys := by
  by_cases he : g = h
  · rw [he, Function.update_self] at hg
    exact nomatch hg
  · rw [Function.update_of_ne he] at hg
    exact ⟨he, hg⟩

theorem Loose.update (hx : Loose lists x) (hn : x ∉ h :: xs) : Loose (Function.update lists h (some xs)) x :=
  fun g ys hg => by
    rcases lists_of_update hg with ⟨rfl, rfl⟩ | ⟨-, hg⟩
    · exact hn
    · exact hx g ys hg

/-- One list replaced: its nodes are in no other list, and the links of the others stay. -/
theorem Family.update (hf : Family m lists) (hr : Ring m' h xs)
    (hfresh : ∀ g ys, g ≠ h → lists g = some ys → ∀ a ∈ h :: xs, a ∉ g :: ys)
    (hframe : ∀ g ys, g ≠ h → lists g = some ys → ∀ a ∈ g :: ys, m'.next a = m.next a ∧ m'.prev a = m.prev a) :
    Family m' (Function.update lists h (some xs)) where
  ring := by
    intro g ys hg
    rcases lists_of_update hg with ⟨rfl, rfl⟩ | ⟨hne, hg⟩
    · exact hr
    · exact (hf.ring g ys hg).congr (fun a ha => (hframe g ys hne hg a ha).1) fun a ha => (hframe g ys hne hg a ha).2
  disjoint := by
    intro g ys k zs hg hk hgk a ha hak
    rcases lists_of_update hg with ⟨rfl, rfl⟩ | ⟨hng, hg'⟩
    · rcases lists_of_update hk with ⟨rfl, -⟩ | ⟨hnk, hk'⟩
      · exact hgk rfl
      · exact hfresh k zs hnk hk' a ha hak
    · rcases lists_of_update hk with ⟨rfl, rfl⟩ | ⟨-, hk'⟩
      · exact hfresh g ys hng hg' a hak ha
      · exact hf.disjoint g ys k zs hg' hk' hgk a ha hak

/-- A list given up. -/
theorem Family.drop (hf : Family m lists) (h : P) : Family m (Function.update lists h none) where
  ring := fun g ys hg => hf.ring g ys (lists_of_update_none hg).2
  disjoint := fun g ys k zs hg hk => hf.disjoint g ys k zs (lists_of_update_none hg).2 (lists_of_update_none hk).2

theorem Family.loose_drop (hf : Family m lists) (hl : lists h = some xs) (hx : x ∈ h :: xs) :
    Loose (Function.update lists h none) x := fun g ys hg hm => by
  obtain ⟨hne, hg⟩ := lists_of_update_none hg
  exact hf.disjoint g ys h xs hg hl hne x hm hx

/-- A loose node becomes the head of the empty list. -/
theorem Family.init (hf : Family m lists) (hx : Loose lists x) :
    Family (m.withLinks x x x) (Function.update lists x (some [])) := by
  refine hf.update (.self ?_ ?_) (fun g ys _ hg a ha => ?_) fun g ys _ hg a ha => ?_
  · simp [Links.withLinks, setNext, setPrev]
  · simp [Links.withLinks, setNext, setPrev]
  · rw [List.mem_singleton.mp ha]
    exact hx g ys hg
  · have hax : a ≠ x := fun he => hx g ys hg (he ▸ ha)
    simp [Links.withLinks, setNext, setPrev, hax]

/-- The fields of a loose node are no part of any list. -/
theorem Family.withLinks (hf : Family m lists) (hx : Loose lists x) (n p : P) : Family (m.withLinks x n p) lists where
  ring := fun g ys hg => (hf.ring g ys hg).withLinks (hx g ys hg) n p
  disjoint := hf.disjoint

theorem Family.addHead (hf : Family m lists) (hl : lists h = some xs) (hx : Loose lists x) :
    Family (m.addHead x h) (Function.update lists h (some (x :: xs))) := by
  refine hf.update ((hf.ring h xs hl).addHead (hx h xs hl)) (fun g ys hne hg a ha => ?_) fun g ys hne hg a ha => ?_
  · rcases List.mem_cons.mp ha with rfl | ha
    · exact hf.disjoint a xs g ys hl hg hne.symm a List.mem_cons_self
    · rcases List.mem_cons.mp ha with rfl | ha
      · exact hx g ys hg
      · exact hf.disjoint h xs g ys hl hg hne.symm a (List.mem_cons_of_mem _ ha)
  · exact (hf.ring h xs hl).addHead_frame (hf.disjoint g ys h xs hg hl hne a ha) fun he => hx g ys hg (he ▸ ha)

theorem Family.addTail (hf : Family m lists) (hl : lists h = some xs) (hx : Loose lists x) :
    Family (m.addTail x h) (Function.update lists h (some (xs ++ [x]))) := by
  refine hf.update ((hf.ring h xs hl).addTail (hx h xs hl)) (fun g ys hne hg a ha => ?_) fun g ys hne hg a ha => ?_
  · rw [← List.cons_append] at ha
    rcases List.mem_append.mp ha with ha | ha
    · exact hf.disjoint h xs g ys hl hg hne.symm a ha
    · rw [List.mem_singleton.mp ha]
      exact hx g ys hg
  · exact (hf.ring h xs hl).addTail_frame (hf.disjoint g ys h xs hg hl hne a ha) fun he => hx g ys hg (he ▸ ha)

/-- A node taken out of its list is loose. -/
theorem Family.unlink (hf : Family m lists) (hl : lists h = some (as ++ x :: bs)) :
    Family (m.unlink x) (Function.update lists h (some (as ++ bs))) ∧
      Loose (Function.update lists h (some (as ++ bs))) x := by
  have hr := hf.ring h _ hl
  have hsub : ∀ a ∈ h :: (as ++ bs), a ∈ h :: (as ++ x :: bs) := by
    intro a ha
    simp only [List.mem_cons, List.mem_append] at ha ⊢
    tauto
  refine ⟨hf.update hr.unlink (fun g ys hne hg a ha => ?_) (fun g ys hne hg a ha => ?_), fun g ys hg => ?_⟩
  · exact hf.disjoint h _ g ys hl hg hne.symm a (hsub a ha)
  · exact hr.unlink_frame (hf.disjoint g ys h _ hg hl hne a ha)
  · rcases lists_of_update hg with ⟨rfl, rfl⟩ | ⟨hne, hg⟩
    · have hnd : (x :: (g :: (as ++ bs))).Nodup := by
        refine (List.Perm.nodup_iff ?_).mp hr.nodup
        exact (List.Perm.cons g List.perm_middle).trans (List.Perm.swap x g _)
      exact (List.nodup_cons.mp hnd).1
    · exact hf.disjoint h _ g ys hl hg hne.symm x (by simp)

/-- Two lists become one, the head of the first one is loose. -/
theorem Family.splice (hf : Family m lists) (hl : lists l = some ys) (hh : lists h = some xs) (hne : l ≠ h)
    (hy : ys ≠ []) :
    Family (m.splice l h) (Function.update (Function.update lists l none) h (some (ys ++ xs))) ∧
      Loose (Function.update (Function.update lists l none) h (some (ys ++ xs))) l := by
  have hrl := hf.ring l ys hl
  have hrh := hf.ring h xs hh
  have hdis := hf.disjoint l ys h xs hl hh hne
  refine ⟨(hf.drop l).update (hrl.splice hrh hdis hy) (fun g zs hgh hg a ha => ?_) fun g zs hgh hg a ha => ?_,
    fun g zs hg => ?_⟩
  · obtain ⟨hgl, hg⟩ := lists_of_update_none hg
    rw [← List.cons_append] at ha
    simp only [List.cons_append, List.mem_cons, List.mem_append] at ha
    rcases ha with rfl | ha | ha
    · exact hf.disjoint a xs g zs hh hg hgh.symm a List.mem_cons_self
    · exact hf.disjoint l ys g zs hl hg hgl.symm a (List.mem_cons_of_mem _ ha)
    · exact hf.disjoint h xs g zs hh hg hgh.symm a (List.mem_cons_of_mem _ ha)
  · obtain ⟨hgl, hg⟩ := lists_of_update_none hg
    exact hrl.splice_frame hrh hy (hf.disjoint g zs l ys hg hl hgl a ha) (hf.disjoint g zs h xs hg hh hgh a ha)
  · rcases lists_of_update hg with ⟨rfl, rfl⟩ | ⟨-, hg⟩
    · rw [List.mem_cons, List.mem_append]
      rintro (rfl | hm | hm)
      · exact hne rfl
      · exact (List.nodup_cons.mp hrl.nodup).1 hm
      · exact hdis l List.mem_cons_self (List.mem_cons_of_mem _ hm)
    · obtain ⟨hgl, hg⟩ := lists_of_update_none hg
      exact hf.disjoint l ys g zs hl hg hgl.symm l List.mem_cons_self

end Taomee.Links
