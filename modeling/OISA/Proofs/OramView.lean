import OISA.Proofs.SortViews
import OISA.Proofs.TreeWalk

/-!
# The contents of the tree ORAM

`Oram.ofMem` reads the records of the ORAM off its arrays.
-/

namespace OISA.Primitives

open OISA.Lib OISA.Lib.Traced

/-- A slot of the stash: its `Stash_Info` and its data. -/
@[ext]
structure Slot where
  key : ℤ
  valid : ℤ
  id : ℤ
  leaf : ℤ
  data : List ℤ

/-- An `ORAM_Block` and its data. -/
@[ext]
structure TreeBlock where
  valid : ℤ
  id : ℤ
  leaf : ℤ
  data : List ℤ

/-- The records of the ORAM; `buffer` is what `data_ptr` points to. -/
@[ext]
structure Oram where
  slot : ℕ → Slot
  tree : ℕ → TreeBlock
  entry : ℕ → ℤ
  wbPath : ℕ → ℤ
  occupied : ℕ → ℤ
  buffer : List ℤ

variable (p : OramParams)

def Oram.ofMem (m : Mem OramArr) : Oram where
  slot i := ⟨m.get .stashInfo (infoKey i), m.get .stashInfo (infoValid i),
    m.get .stashInfo (infoId i), m.get .stashInfo (infoLeaf i),
    (List.range p.blockSize).map fun k => m.get .stashData (i * p.blockSize + k)⟩
  tree t := ⟨m.get .tree (t * p.treeStride), m.get .tree (t * p.treeStride + 1),
    m.get .tree (t * p.treeStride + 2),
    (List.range p.blockSize).map fun k => m.get .tree (t * p.treeStride + 3 + k)⟩
  entry i := m.get .posMap i
  wbPath i := m.get .wbPath i
  occupied i := m.get .occupied i
  buffer := (List.range p.blockSize).map fun k => m.get .data k

namespace Oram

def setSlot (o : Oram) (i : ℕ) (s : Slot) : Oram := { o with slot := Function.update o.slot i s }

def setTree (o : Oram) (t : ℕ) (b : TreeBlock) : Oram :=
  { o with tree := Function.update o.tree t b }

def setEntry (o : Oram) (i : ℕ) (v : ℤ) : Oram :=
  { o with entry := Function.update o.entry i v }

def setWbPath (o : Oram) (i : ℕ) (v : ℤ) : Oram :=
  { o with wbPath := Function.update o.wbPath i v }

def setOccupied (o : Oram) (i : ℕ) (v : ℤ) : Oram :=
  { o with occupied := Function.update o.occupied i v }

def setBuffer (o : Oram) (d : List ℤ) : Oram := { o with buffer := d }

variable (o : Oram) (i t : ℕ) (v : ℤ) (d : List ℤ) (s : Slot) (b : TreeBlock)

lemma setEntry_entry (j : ℕ) : (o.setEntry i v).entry j = if j = i then v else o.entry j := by
  simp [setEntry, Function.update_apply]

lemma setWbPath_wbPath (j : ℕ) :
    (o.setWbPath i v).wbPath j = if j = i then v else o.wbPath j := by
  simp [setWbPath, Function.update_apply]

lemma setOccupied_occupied (j : ℕ) :
    (o.setOccupied i v).occupied j = if j = i then v else o.occupied j := by
  simp [setOccupied, Function.update_apply]

@[simp] lemma setWbPath_slot : (o.setWbPath i v).slot = o.slot := rfl
@[simp] lemma setWbPath_tree : (o.setWbPath i v).tree = o.tree := rfl
@[simp] lemma setWbPath_entry : (o.setWbPath i v).entry = o.entry := rfl
@[simp] lemma setWbPath_occupied : (o.setWbPath i v).occupied = o.occupied := rfl
@[simp] lemma setWbPath_buffer : (o.setWbPath i v).buffer = o.buffer := rfl

@[simp] lemma setOccupied_slot : (o.setOccupied i v).slot = o.slot := rfl
@[simp] lemma setOccupied_tree : (o.setOccupied i v).tree = o.tree := rfl
@[simp] lemma setOccupied_entry : (o.setOccupied i v).entry = o.entry := rfl
@[simp] lemma setOccupied_wbPath : (o.setOccupied i v).wbPath = o.wbPath := rfl
@[simp] lemma setOccupied_buffer : (o.setOccupied i v).buffer = o.buffer := rfl

@[simp] lemma setBuffer_slot : (o.setBuffer d).slot = o.slot := rfl
@[simp] lemma setBuffer_buffer : (o.setBuffer d).buffer = d := rfl
@[simp] lemma setBuffer_self : o.setBuffer o.buffer = o := rfl

@[simp] lemma setSlot_setBuffer : (o.setSlot i s).setBuffer d = (o.setBuffer d).setSlot i s := rfl

@[simp] lemma setSlot_slot_self : (o.setSlot i s).slot i = s := by simp [setSlot]

lemma setSlot_slot_of_ne {j : ℕ} (h : j ≠ i) : (o.setSlot i s).slot j = o.slot j := by
  simp [setSlot, h]

@[simp] lemma setSlot_tree : (o.setSlot i s).tree = o.tree := rfl
@[simp] lemma setSlot_entry : (o.setSlot i s).entry = o.entry := rfl
@[simp] lemma setSlot_wbPath : (o.setSlot i s).wbPath = o.wbPath := rfl
@[simp] lemma setSlot_occupied : (o.setSlot i s).occupied = o.occupied := rfl
@[simp] lemma setSlot_buffer : (o.setSlot i s).buffer = o.buffer := rfl

@[simp] lemma setSlot_setSlot (s' : Slot) : (o.setSlot i s).setSlot i s' = o.setSlot i s' := by
  simp [setSlot]

@[simp] lemma setSlot_self : o.setSlot i (o.slot i) = o := by simp [setSlot]

@[simp] lemma setTree_tree_self : (o.setTree t b).tree t = b := by simp [setTree]

lemma setTree_tree_of_ne {u : ℕ} (h : u ≠ t) : (o.setTree t b).tree u = o.tree u := by
  simp [setTree, h]

@[simp] lemma setTree_slot : (o.setTree t b).slot = o.slot := rfl
@[simp] lemma setTree_entry : (o.setTree t b).entry = o.entry := rfl
@[simp] lemma setTree_wbPath : (o.setTree t b).wbPath = o.wbPath := rfl
@[simp] lemma setTree_occupied : (o.setTree t b).occupied = o.occupied := rfl
@[simp] lemma setTree_buffer : (o.setTree t b).buffer = o.buffer := rfl

@[simp] lemma setTree_setTree (b' : TreeBlock) :
    (o.setTree t b).setTree t b' = o.setTree t b' := by
  simp [setTree]

end Oram

section Stores

variable (m : Mem OramArr) (i t : ℕ) (v : ℤ)

lemma ofMem_set_key : Oram.ofMem p (m.set .stashInfo (infoKey i) v) =
    (Oram.ofMem p m).setSlot i { (Oram.ofMem p m).slot i with key := v } := by
  ext j
  all_goals by_cases hj : j = i
  all_goals simp [Oram.ofMem, Oram.setSlot, Mem.get_set, infoKey, infoValid, infoId, infoLeaf, hj]
  all_goals omega

lemma ofMem_set_valid : Oram.ofMem p (m.set .stashInfo (infoValid i) v) =
    (Oram.ofMem p m).setSlot i { (Oram.ofMem p m).slot i with valid := v } := by
  ext j
  all_goals by_cases hj : j = i
  all_goals simp [Oram.ofMem, Oram.setSlot, Mem.get_set, infoKey, infoValid, infoId, infoLeaf, hj]
  all_goals omega

lemma ofMem_set_id : Oram.ofMem p (m.set .stashInfo (infoId i) v) =
    (Oram.ofMem p m).setSlot i { (Oram.ofMem p m).slot i with id := v } := by
  ext j
  all_goals by_cases hj : j = i
  all_goals simp [Oram.ofMem, Oram.setSlot, Mem.get_set, infoKey, infoValid, infoId, infoLeaf, hj]
  all_goals omega

lemma ofMem_set_leaf : Oram.ofMem p (m.set .stashInfo (infoLeaf i) v) =
    (Oram.ofMem p m).setSlot i { (Oram.ofMem p m).slot i with leaf := v } := by
  ext j
  all_goals by_cases hj : j = i
  all_goals simp [Oram.ofMem, Oram.setSlot, Mem.get_set, infoKey, infoValid, infoId, infoLeaf, hj]
  all_goals omega

lemma treeStride_inj {a b u u' : ℕ} (ha : a < p.treeStride) (hb : b < p.treeStride)
    (h : u * p.treeStride + a = u' * p.treeStride + b) : u = u' ∧ a = b :=
  digits_inj ha hb h

lemma get_set_tree {a c : ℕ} (ha : a < p.treeStride) (hc : c < p.treeStride) (u : ℕ) :
    (m.set .tree (t * p.treeStride + c) v).get .tree (u * p.treeStride + a) =
      if u = t ∧ a = c then v else m.get .tree (u * p.treeStride + a) := by
  rw [Mem.get_set]
  by_cases h : u * p.treeStride + a = t * p.treeStride + c
  · rw [if_pos ⟨rfl, h⟩, if_pos (treeStride_inj p ha hc h)]
  · rw [if_neg (fun hh => h hh.2), if_neg (fun hh => h (by rw [hh.1, hh.2]))]

def TreeBlock.setWord (b : TreeBlock) (c : ℕ) (v : ℤ) : TreeBlock :=
  { b with
    valid := if c = 0 then v else b.valid
    id := if c = 1 then v else b.id
    leaf := if c = 2 then v else b.leaf }

lemma ofMem_set_tree {c : ℕ} (hc : c < 3) :
    Oram.ofMem p (m.set .tree (t * p.treeStride + c) v) =
      (Oram.ofMem p m).setTree t (((Oram.ofMem p m).tree t).setWord c v) := by
  have hstride : p.treeStride = 3 + p.blockSize := rfl
  have hother : ∀ x, x ≠ .tree → (m.set .tree (t * p.treeStride + c) v).get x = m.get x :=
    fun x hx => funext fun j => Mem.get_set_of_ne_array m hx _ _ _
  have h0 : ∀ u, (m.set .tree (t * p.treeStride + c) v).get .tree (u * p.treeStride) =
      if u = t ∧ 0 = c then v else m.get .tree (u * p.treeStride) :=
    get_set_tree p m t v (a := 0) (c := c) (by omega) (by omega)
  have h1 := get_set_tree p m t v (a := 1) (c := c) (by omega) (by omega)
  have h2 := get_set_tree p m t v (a := 2) (c := c) (by omega) (by omega)
  have h3 : ∀ u, ∀ k ∈ List.range p.blockSize,
      (m.set .tree (t * p.treeStride + c) v).get .tree (u * p.treeStride + 3 + k) =
        m.get .tree (u * p.treeStride + 3 + k) := by
    intro u k hk
    rw [List.mem_range] at hk
    have hword := get_set_tree p m t v (a := 3 + k) (c := c) (by omega) (by omega) u
    rw [Nat.add_assoc, hword, if_neg (by omega)]
  unfold Oram.ofMem Oram.setTree
  simp only [hother _ (by decide : OramArr.stashInfo ≠ .tree),
    hother _ (by decide : OramArr.stashData ≠ .tree), hother _ (by decide : OramArr.posMap ≠ .tree),
    hother _ (by decide : OramArr.wbPath ≠ .tree), hother _ (by decide : OramArr.occupied ≠ .tree),
    hother _ (by decide : OramArr.data ≠ .tree), Oram.mk.injEq, true_and, and_true]
  funext u
  by_cases hu : u = t
  · subst hu
    rw [Function.update_self]
    ext
    · simp [TreeBlock.setWord, h0, eq_comm]
    · simp [TreeBlock.setWord, h1, eq_comm]
    · simp [TreeBlock.setWord, h2, eq_comm]
    · exact congrArg (·[_]? = _) (List.map_congr_left (h3 u)) |>.to_iff
  · rw [Function.update_of_ne hu]
    ext
    · simp [h0, hu]
    · simp [h1, hu]
    · simp [h2, hu]
    · exact congrArg (·[_]? = _) (List.map_congr_left (h3 u)) |>.to_iff

lemma ofMem_set_posMap : Oram.ofMem p (m.set .posMap i v) =
    (Oram.ofMem p m).setEntry i v := by
  ext j
  all_goals by_cases hj : j = i
  all_goals simp [Oram.ofMem, Oram.setEntry, Mem.get_set, hj]

lemma ofMem_set_wbPath : Oram.ofMem p (m.set .wbPath i v) =
    (Oram.ofMem p m).setWbPath i v := by
  ext j
  all_goals by_cases hj : j = i
  all_goals simp [Oram.ofMem, Oram.setWbPath, Mem.get_set, hj]

lemma ofMem_set_occupied : Oram.ofMem p (m.set .occupied i v) =
    (Oram.ofMem p m).setOccupied i v := by
  ext j
  all_goals by_cases hj : j = i
  all_goals simp [Oram.ofMem, Oram.setOccupied, Mem.get_set, hj]

end Stores

lemma moveWords_get {ι : Type} [DecidableEq ι] {a b : ι} (hab : a ≠ b) (cond : Bool)
    (f : ℕ → ℕ) (base n : ℕ) (body : ℕ → Traced ι Unit) (m : Mem ι)
    (hbody : ∀ k m', (body k).exec m' =
      m'.set b (base + k) (if cond then m'.get a (f k) else m'.get b (base + k))) (c : ℕ) :
    ((forUpTo n body).exec m).get b c =
      if cond ∧ base ≤ c ∧ c < base + n then m.get a (f (c - base)) else m.get b c := by
  have hinv := forUpTo_invariant
    (fun n m' => m'.get a = m.get a ∧ ∀ c, m'.get b c =
      if cond ∧ base ≤ c ∧ c < base + n then m.get a (f (c - base)) else m.get b c)
    body n m ⟨rfl, fun c => by rw [if_neg (by omega)]⟩
    (fun k _ m' ⟨ha, hb⟩ => by
      rw [hbody]
      refine ⟨?_, fun c => ?_⟩
      · funext j
        rw [Mem.get_set_of_ne_array _ hab, ha]
      · rw [Mem.get_set]
        by_cases hc : c = base + k
        · subst hc
          rw [if_pos ⟨rfl, rfl⟩]
          cases cond with
          | false => simp [hb]
          | true => simp [ha]
        · rw [if_neg (fun h => hc h.2), hb]
          have hiff : c < base + (k + 1) ↔ c < base + k := by omega
          simp only [hiff])
  exact hinv.2 c

lemma keeps_cmovn {ι : Type} [DecidableEq ι] {b x : ι} (hx : x ≠ b) (cond : Bool) (a : ι)
    (i j sz : ℕ) : Keeps (cmovn cond a i b j sz) x :=
  keeps_forUpTo (fun _ => (keeps_load b _ x).bind fun _ => (keeps_load a _ x).bind fun _ =>
    keeps_store hx _ _) sz

lemma cmovn_get {ι : Type} [DecidableEq ι] {a b : ι} (hab : a ≠ b) (cond : Bool)
    (i j sz : ℕ) (m : Mem ι) (c : ℕ) :
    ((cmovn cond a i b j sz).exec m).get b c =
      if cond ∧ j ≤ c ∧ c < j + sz then m.get a (i + (c - j)) else m.get b c :=
  moveWords_get hab cond (fun k => i + k) j sz _ m (fun _ _ => rfl) c

section Moves

variable (m : Mem OramArr) (i t : ℕ)

lemma ofMem_slotData {m m' : Mem OramArr} (i : ℕ) (d : List ℤ)
    (hother : ∀ x, x ≠ .stashData → m'.get x = m.get x)
    (hdata : ∀ j, (List.range p.blockSize).map
      (fun k => m'.get .stashData (j * p.blockSize + k)) =
        if j = i then d else
          (List.range p.blockSize).map fun k => m.get .stashData (j * p.blockSize + k)) :
    Oram.ofMem p m' = (Oram.ofMem p m).setSlot i { (Oram.ofMem p m).slot i with data := d } := by
  unfold Oram.ofMem Oram.setSlot
  simp only [hother _ (by decide : OramArr.stashInfo ≠ .stashData),
    hother _ (by decide : OramArr.tree ≠ .stashData),
    hother _ (by decide : OramArr.posMap ≠ .stashData),
    hother _ (by decide : OramArr.wbPath ≠ .stashData),
    hother _ (by decide : OramArr.occupied ≠ .stashData),
    hother _ (by decide : OramArr.data ≠ .stashData), hdata, Oram.mk.injEq, and_true]
  funext j
  by_cases hj : j = i
  · subst hj
    simp
  · rw [Function.update_of_ne hj, if_neg hj]

lemma slot_range {i j k : ℕ} (hk : k < p.blockSize) :
    (i * p.blockSize ≤ j * p.blockSize + k ∧ j * p.blockSize + k <
      i * p.blockSize + p.blockSize) ↔ j = i := by
  constructor
  · intro ⟨h1, h2⟩
    have hcell : j * p.blockSize + k = i * p.blockSize +
        (j * p.blockSize + k - i * p.blockSize) := by omega
    exact (digits_inj hk (by omega) hcell).1
  · rintro rfl
    omega

lemma ofMem_moveToSlot {a : OramArr} (ha : a ≠ .stashData) (cond : Bool) (f : ℕ → ℕ)
    (body : ℕ → Traced OramArr Unit)
    (hbody : ∀ k m', (body k).exec m' = m'.set .stashData (i * p.blockSize + k)
      (if cond then m'.get a (f k) else m'.get .stashData (i * p.blockSize + k))) :
    Oram.ofMem p ((forUpTo p.blockSize body).exec m) =
      (Oram.ofMem p m).setSlot i { (Oram.ofMem p m).slot i with
        data := if cond then (List.range p.blockSize).map fun k => m.get a (f k)
          else ((Oram.ofMem p m).slot i).data } := by
  refine ofMem_slotData p i _ (fun x hx => ?_) (fun j => ?_)
  · refine keeps_forUpTo (fun k m' => ?_) _ m
    rw [hbody]
    funext c
    exact Mem.get_set_of_ne_array m' hx _ _ _
  · by_cases hj : j = i
    · subst hj
      rw [if_pos rfl]
      cases cond with
      | false =>
        apply List.map_congr_left
        intro k _
        rw [moveWords_get ha false f _ _ body m hbody]
        simp
      | true =>
        apply List.map_congr_left
        intro k hk
        rw [moveWords_get ha true f _ _ body m hbody,
          if_pos ⟨rfl, (slot_range p (List.mem_range.mp hk)).mpr rfl⟩, Nat.add_sub_cancel_left]
    · rw [if_neg hj]
      apply List.map_congr_left
      intro k hk
      rw [moveWords_get ha cond f _ _ body m hbody,
        if_neg (fun h => hj ((slot_range p (List.mem_range.mp hk)).mp h.2))]

lemma ofMem_cmovn_toSlot (cond : Bool) :
    Oram.ofMem p ((cmovn cond .data 0 .stashData (i * p.blockSize) p.blockSize).exec m) =
      (Oram.ofMem p m).setSlot i { (Oram.ofMem p m).slot i with
        data := if cond then (Oram.ofMem p m).buffer else ((Oram.ofMem p m).slot i).data } := by
  have hmove := ofMem_moveToSlot p m i (by decide : OramArr.data ≠ .stashData) cond
    (fun k => 0 + k) (fun k => cmov cond .data (0 + k) .stashData (i * p.blockSize + k))
    (fun _ _ => rfl)
  rw [cmovn, hmove]
  simp only [Nat.zero_add]
  rfl

lemma ofMem_cmovn_toBuffer (cond : Bool) :
    Oram.ofMem p ((cmovn cond .stashData (i * p.blockSize) .data 0 p.blockSize).exec m) =
      (Oram.ofMem p m).setBuffer
        (if cond then ((Oram.ofMem p m).slot i).data else (Oram.ofMem p m).buffer) := by
  have hother : ∀ x, x ≠ .data → ((cmovn cond .stashData (i * p.blockSize) .data 0
      p.blockSize).exec m).get x = m.get x := fun x hx => keeps_cmovn hx _ _ _ _ _ m
  unfold Oram.ofMem Oram.setBuffer
  simp only [hother _ (by decide : OramArr.stashInfo ≠ .data),
    hother _ (by decide : OramArr.tree ≠ .data), hother _ (by decide : OramArr.posMap ≠ .data),
    hother _ (by decide : OramArr.wbPath ≠ .data), hother _ (by decide : OramArr.occupied ≠ .data),
    hother _ (by decide : OramArr.stashData ≠ .data), Oram.mk.injEq, true_and]
  cases cond with
  | false =>
    apply List.map_congr_left
    intro k _
    rw [cmovn_get (by decide : OramArr.stashData ≠ .data)]
    simp
  | true =>
    apply List.map_congr_left
    intro k hk
    rw [cmovn_get (by decide : OramArr.stashData ≠ .data), if_pos ⟨rfl, by omega, by
      have := List.mem_range.mp hk; omega⟩, Nat.sub_zero]

lemma ofMem_set_treeValid (v : ℤ) : Oram.ofMem p (m.set .tree (t * p.treeStride) v) =
    (Oram.ofMem p m).setTree t { (Oram.ofMem p m).tree t with valid := v } :=
  ofMem_set_tree p m t v (c := 0) (by omega)

/-- A memory that differs in the data of the tree block `t` only. -/
lemma ofMem_treeData (d : List ℤ) (body : ℕ → Traced OramArr Unit) {a : OramArr} (ha : a ≠ .tree) (f : ℕ → ℕ)
    (hf : d = (List.range p.blockSize).map fun k => m.get a (f k))
    (hbody : ∀ k m', (body k).exec m' = m'.set .tree (t * p.treeStride + 3 + k) (m'.get a (f k))) :
    Oram.ofMem p ((forUpTo p.blockSize body).exec m) =
      (Oram.ofMem p m).setTree t { (Oram.ofMem p m).tree t with data := d } := by
  have hstride : p.treeStride = 3 + p.blockSize := rfl
  have hother : ∀ x, x ≠ .tree → ((forUpTo p.blockSize body).exec m).get x = m.get x := by
    intro x hx
    refine keeps_forUpTo (fun k m' => ?_) _ m
    rw [hbody]
    funext c
    exact Mem.get_set_of_ne_array m' hx _ _ _
  have hget := moveWords_get ha true f (t * p.treeStride + 3) p.blockSize body m hbody
  have hhead : ∀ u c, c < 3 → ((forUpTo p.blockSize body).exec m).get .tree
      (u * p.treeStride + c) = m.get .tree (u * p.treeStride + c) := by
    intro u c hc
    rw [hget, if_neg]
    rintro ⟨-, h1, h2⟩
    have hcell : u * p.treeStride + c = t * p.treeStride +
      (u * p.treeStride + c - t * p.treeStride) := by omega
    have := treeStride_inj p (by omega) (by omega) hcell
    omega
  have hbase : ∀ u, ((forUpTo p.blockSize body).exec m).get .tree (u * p.treeStride) =
      m.get .tree (u * p.treeStride) := fun u => hhead u 0 (by omega)
  unfold Oram.ofMem Oram.setTree
  simp only [hother _ (by decide : OramArr.stashInfo ≠ .tree),
    hother _ (by decide : OramArr.stashData ≠ .tree), hother _ (by decide : OramArr.posMap ≠ .tree),
    hother _ (by decide : OramArr.wbPath ≠ .tree), hother _ (by decide : OramArr.occupied ≠ .tree),
    hother _ (by decide : OramArr.data ≠ .tree), Oram.mk.injEq, true_and, and_true]
  funext u
  rw [hbase, hhead u 1 (by omega), hhead u 2 (by omega)]
  by_cases hu : u = t
  · subst hu
    rw [Function.update_self, TreeBlock.mk.injEq]
    refine ⟨rfl, rfl, rfl, ?_⟩
    rw [hf]
    apply List.map_congr_left
    intro k hk
    have hk' := List.mem_range.mp hk
    rw [hget, if_pos ⟨rfl, by omega, by omega⟩, Nat.add_sub_cancel_left]
  · rw [Function.update_of_ne hu, TreeBlock.mk.injEq]
    refine ⟨rfl, rfl, rfl, ?_⟩
    apply List.map_congr_left
    intro k hk
    have hk' := List.mem_range.mp hk
    rw [hget, if_neg]
    rintro ⟨-, h1, h2⟩
    have hcell : u * p.treeStride + (3 + k) = t * p.treeStride +
      (u * p.treeStride + (3 + k) - t * p.treeStride) := by omega
    exact hu (treeStride_inj p (by omega) (by omega) hcell).1

end Moves

def Oram.fetch (o : Oram) (t s : ℕ) : Oram :=
  (o.setSlot s ⟨(o.slot s).key, (o.tree t).valid, (o.tree t).id, (o.tree t).leaf,
    (o.tree t).data⟩).setTree t { o.tree t with valid := 0 }

def Oram.putBack (o : Oram) (t s : ℕ) : Oram :=
  (o.setTree t ⟨(o.slot s).valid, (o.slot s).id, (o.slot s).leaf, (o.slot s).data⟩).setSlot s
    { o.slot s with valid := 0 }

lemma ofMem_fetchBlock (t s : ℕ) (m : Mem OramArr) :
    Oram.ofMem p ((fetchBlock p t s).exec m) = (Oram.ofMem p m).fetch t s := by
  simp only [fetchBlock, exec_bind, exec_load, val_load, exec_store]
  rw [ofMem_moveToSlot p _ s (by decide : OramArr.tree ≠ .stashData) true
    (fun k => t * p.treeStride + 3 + k) _ (fun _ _ => rfl)]
  have hdata : ∀ m', (List.range p.blockSize).map
      (fun k => m'.get .tree (t * p.treeStride + 3 + k)) = ((Oram.ofMem p m').tree t).data :=
    fun _ => rfl
  rw [if_pos rfl, hdata, ofMem_set_treeValid, ofMem_set_leaf, ofMem_set_id, ofMem_set_valid]
  simp [Oram.fetch, Mem.get_set, Oram.ofMem, Oram.setTree, Oram.setSlot]

lemma ofMem_writeBackBlock (t s : ℕ) (m : Mem OramArr) :
    Oram.ofMem p ((writeBackBlock p t s).exec m) = (Oram.ofMem p m).putBack t s := by
  simp only [writeBackBlock, exec_bind, exec_load, val_load, exec_store]
  rw [ofMem_treeData p _ t _ _ (by decide : OramArr.stashData ≠ .tree)
    (fun k => s * p.blockSize + k) rfl (fun _ _ => rfl)]
  have hdata : ∀ m', (List.range p.blockSize).map
      (fun k => m'.get .stashData (s * p.blockSize + k)) = ((Oram.ofMem p m').slot s).data :=
    fun _ => rfl
  rw [hdata, ofMem_set_valid, ofMem_set_tree p _ t _ (c := 2) (by omega),
    ofMem_set_tree p _ t _ (c := 1) (by omega), ofMem_set_treeValid]
  simp [Oram.putBack, Mem.get_set, Oram.ofMem, Oram.setTree, Oram.setSlot, TreeBlock.setWord]

end OISA.Primitives
