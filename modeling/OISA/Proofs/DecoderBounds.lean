import OISA.X86.Decoder

/-!
# The bytes an instruction is read from

`Decode` stays in its buffer exactly when the buffer has four bytes behind the prefixes and
all bytes of the encoding that the matching entry of the table asks for.
-/

namespace OISA.X86.Decoder

open OISA.Lib

def sibLength (modrm : ℕ) : ℕ :=
  if (modrm &&& 0xc0) >>> 6 ≠ 3 ∧ modrm &&& 0x07 = 4 then 1 else 0

def dispLength (modrm sib : ℕ) : ℕ :=
  let mod := (modrm &&& 0xc0) >>> 6
  let rm := modrm &&& 0x07
  if mod = 1 then 1
  else if mod = 2 then 4
  else if mod = 0 ∧ (rm = 5 ∨ rm = 4 ∧ sib &&& 0x07 = 5) then 4
  else 0

def addressLength (bytes : List UInt8) : ℕ :=
  let modrm := (bytes.getD 0 0).toNat
  1 + sibLength modrm + dispLength modrm (bytes.getD 1 0).toNat

def encodingLength (info : Info) (bytes : List UInt8) : ℕ :=
  info.opcode_size + (if info.modrm_size = 0 then 0 else
    addressLength (bytes.drop info.opcode_size)) + info.imm_size

/-- The parts of a recognised instruction are the first bytes of the buffer, one behind the
other, and `size` is their number. -/
structure Encodes (buffer : List UInt8) (inst : Instruction)
    (pre opcode modrm sib disp imm : List UInt8) : Prop where
  bytes : buffer.take inst.size = pre ++ (opcode ++ (modrm ++ (sib ++ (disp ++ imm))))
  inside : inst.size ≤ buffer.length
  sizes : inst.prefix_size = pre.length ∧ inst.opcode_size = opcode.length ∧
    inst.modrm_size = modrm.length ∧ inst.sib_size = sib.length ∧
    inst.disp_size = disp.length ∧ inst.imm_size = imm.length
  size : inst.size =
    pre.length + opcode.length + modrm.length + sib.length + disp.length + imm.length
  prefixes : pre = buffer.takeWhile isPrefix
  modrmByte : modrm ≠ [] → inst.modrm = leNat modrm
  sibByte : sib ≠ [] → inst.sib = leNat sib
  sibLength : sib.length = if modrm = [] then 0 else sibLength inst.modrm
  dispLength : disp.length = if modrm = [] then 0 else dispLength inst.modrm inst.sib
  dispBytes : inst.disp = signed disp.length (leNat disp)
  immBytes : inst.imm = leNat imm

lemma load_eq (width : ℕ) (buffer : List UInt8) :
    load width buffer =
      if width ≤ buffer.length then .ok (leNat (buffer.take width)) else .error .outside := rfl

lemma leNat_take_one {buffer : List UInt8} (h : 1 ≤ buffer.length) :
    leNat (buffer.take 1) = (buffer.getD 0 0).toNat := by
  cases buffer with
  | nil => simp at h
  | cons byte buffer => simp [leNat]

lemma modrmTable_sib (modrm : ℕ) :
    (modrmTable ((modrm &&& 0xc0) >>> 6) (modrm &&& 0x07)).2.2 = sibLength modrm := by
  unfold modrmTable sibLength
  by_cases h3 : (modrm &&& 0xc0) >>> 6 = 3
  · simp [h3]
  · by_cases h4 : modrm &&& 0x07 = 4
    · simp [h3, h4]
    · simp only [h3, h4, if_false, and_false]
      split <;> rfl

lemma splitSib_disp (inst : Instruction) (modrm sib : ℕ) (h : sibLength modrm = 1) :
    ((inst.splitModrm modrm).splitSib sib).disp_size = dispLength modrm sib := by
  unfold sibLength at h
  have hcond : (modrm &&& 0xc0) >>> 6 ≠ 3 ∧ modrm &&& 0x07 = 4 := by
    by_contra hnot
    rw [if_neg hnot] at h
    cases h
  obtain ⟨h3, h4⟩ := hcond
  simp only [Instruction.splitSib, Instruction.splitModrm, modrmTable, dispLength, h4, h3,
    if_false, if_true]
  by_cases h1 : (modrm &&& 0xc0) >>> 6 = 1
  · simp [h1]
  · by_cases h2 : (modrm &&& 0xc0) >>> 6 = 2
    · simp [h2]
    · by_cases h0 : (modrm &&& 0xc0) >>> 6 = 0
      · by_cases h5 : sib &&& 0x07 = 5 <;> simp [h0, h5]
      · simp [h1, h2, h0]

lemma splitModrm_disp (inst : Instruction) (modrm : ℕ) (h : sibLength modrm = 0) (sib : ℕ) :
    (inst.splitModrm modrm).disp_size = dispLength modrm sib := by
  unfold sibLength at h
  have hcond : ¬((modrm &&& 0xc0) >>> 6 ≠ 3 ∧ modrm &&& 0x07 = 4) := by
    intro hyes
    rw [if_pos hyes] at h
    cases h
  simp only [Instruction.splitModrm, modrmTable, dispLength]
  by_cases h3 : (modrm &&& 0xc0) >>> 6 = 3
  · simp [h3]
  · have h4 : ¬ modrm &&& 0x07 = 4 := fun h4 => hcond ⟨h3, h4⟩
    by_cases h0 : (modrm &&& 0xc0) >>> 6 = 0
    · by_cases h5 : modrm &&& 0x07 = 5 <;> simp [h0, h5, h4]
    · simp [h3, h4, h0]

lemma sibLength_cases (modrm : ℕ) : sibLength modrm = 0 ∨ sibLength modrm = 1 := by
  unfold sibLength
  split <;> simp

lemma dispLength_cases (modrm sib : ℕ) :
    dispLength modrm sib = 0 ∨ dispLength modrm sib = 1 ∨ dispLength modrm sib = 4 := by
  unfold dispLength
  dsimp only
  split
  · simp
  · split
    · simp
    · split <;> simp

lemma signed_zero (n : ℕ) : signed 0 n = 0 := by
  change (BitVec.ofNat 0 n).toInt = 0
  rw [BitVec.eq_nil (BitVec.ofNat 0 n)]
  rfl

lemma decodeDisp_eq {inst : Instruction} (buffer : List UInt8) (hdisp : inst.disp = 0)
    (hsize : inst.disp_size = 0 ∨ inst.disp_size = 1 ∨ inst.disp_size = 4) :
    decodeDisp inst buffer =
      if inst.disp_size ≤ buffer.length then
        .ok ({ inst with disp := signed inst.disp_size (leNat (buffer.take inst.disp_size)) },
          buffer.drop inst.disp_size)
      else .error .outside := by
  unfold decodeDisp
  rcases hsize with h0 | h1
  · obtain ⟨⟩ := inst
    dsimp only at hdisp h0
    subst hdisp h0
    simp [signed_zero]
  · rw [if_pos (by omega), load_eq]
    split <;> rfl

lemma splitSib_frame (inst : Instruction) (sib : ℕ) :
    let inst' := inst.splitSib sib
    inst'.opcode = inst.opcode ∧ inst'.prefix_size = inst.prefix_size ∧
      inst'.opcode_size = inst.opcode_size ∧ inst'.modrm_size = inst.modrm_size ∧
      inst'.sib_size = inst.sib_size ∧ inst'.modrm = inst.modrm ∧ inst'.sib = sib ∧
      inst'.disp = inst.disp ∧ inst'.imm = inst.imm := by
  unfold Instruction.splitSib
  dsimp only
  split <;> simp

/-- What `inst'` has read from the ModR/M byte on, and what it has kept of `inst` -/
structure AddressRead (inst inst' : Instruction) (modrm : UInt8) (sib disp : List UInt8) :
    Prop where
  opcode : inst'.opcode = inst.opcode
  prefix_size : inst'.prefix_size = inst.prefix_size
  opcode_size : inst'.opcode_size = inst.opcode_size
  modrm_size : inst'.modrm_size = inst.modrm_size
  sib_size : inst'.sib_size = sib.length
  disp_size : inst'.disp_size = disp.length
  modrmByte : inst'.modrm = modrm.toNat
  sibByte : sib ≠ [] → inst'.sib = leNat sib
  sibLength : sib.length = sibLength modrm.toNat
  dispLength : disp.length = dispLength modrm.toNat inst'.sib
  dispBytes : inst'.disp = signed disp.length (leNat disp)
  imm : inst'.imm = inst.imm

lemma decodeDisp_read (inst base : Instruction) (modrm : UInt8) (sib rest : List UInt8)
    (hopcode : base.opcode = inst.opcode) (hpresize : base.prefix_size = inst.prefix_size)
    (hopsize : base.opcode_size = inst.opcode_size) (hmodrm : base.modrm_size = inst.modrm_size)
    (hsibsize : base.sib_size = sib.length) (hbyte : base.modrm = modrm.toNat)
    (hsibbyte : sib ≠ [] → base.sib = leNat sib) (hsib : sib.length = sibLength modrm.toNat)
    (himm : base.imm = inst.imm) (hdisp : base.disp = 0)
    (hsize : base.disp_size = dispLength modrm.toNat base.sib) :
    (rest.length < base.disp_size ∧ decodeDisp base rest = .error .outside) ∨
    ∃ disp inst', AddressRead inst inst' modrm sib disp ∧ disp.length = base.disp_size ∧
      rest = disp ++ rest.drop base.disp_size ∧
      decodeDisp base rest = .ok (inst', rest.drop base.disp_size) := by
  rw [decodeDisp_eq rest hdisp (by rw [hsize]; exact dispLength_cases _ _)]
  by_cases hlen : base.disp_size ≤ rest.length
  · right
    have htake : (rest.take base.disp_size).length = base.disp_size := by
      rw [List.length_take, Nat.min_eq_left hlen]
    rw [if_pos hlen]
    exact ⟨rest.take base.disp_size,
      { base with disp := signed base.disp_size (leNat (rest.take base.disp_size)) },
      { opcode := hopcode
        prefix_size := hpresize
        opcode_size := hopsize
        modrm_size := hmodrm
        sib_size := hsibsize
        disp_size := htake.symm
        modrmByte := hbyte
        sibByte := hsibbyte
        sibLength := hsib
        dispLength := htake.trans hsize
        dispBytes := by rw [htake]
        imm := himm }, htake, (List.take_append_drop _ _).symm, rfl⟩
  · rw [if_neg hlen]
    exact .inl ⟨by omega, rfl⟩

/-- The bytes from the ModR/M byte to the displacement are read, or are not all there. -/
lemma decodeModrm_spec (inst : Instruction) (buffer : List UInt8) (hsize : inst.modrm_size = 1)
    (hdisp : inst.disp = 0) :
    (buffer.length < addressLength buffer ∧ decodeModrm inst buffer = .error .outside) ∨
    ∃ modrm sib disp inst', AddressRead inst inst' modrm sib disp ∧
      addressLength buffer = 1 + sib.length + disp.length ∧
      buffer = modrm :: (sib ++ (disp ++ buffer.drop (addressLength buffer))) ∧
      decodeModrm inst buffer = .ok (inst', buffer.drop (addressLength buffer)) := by
  cases buffer with
  | nil =>
    left
    refine ⟨by simp [addressLength], ?_⟩
    rw [decodeModrm, if_neg (by omega)]
    rfl
  | cons modrm rest =>
    have hload : load 1 (modrm :: rest) = .ok modrm.toNat := by simp [load_eq, leNat]
    have hrun : decodeModrm inst (modrm :: rest) =
        (decodeSib (inst.splitModrm modrm.toNat) rest >>= fun r => decodeDisp r.1 r.2) := by
      rw [decodeModrm, if_neg (by omega), hload, hsize]
      rfl
    have hsibsize : (inst.splitModrm modrm.toNat).sib_size = sibLength modrm.toNat :=
      modrmTable_sib _
    rcases sibLength_cases modrm.toNat with h0 | h1
    · -- no SIB byte
      have hstage : decodeModrm inst (modrm :: rest) =
          decodeDisp (inst.splitModrm modrm.toNat) rest := by
        rw [hrun, decodeSib, if_pos (by rw [hsibsize, h0])]
        rfl
      have hdispsize := splitModrm_disp inst _ h0
      have haddress : addressLength (modrm :: rest) =
          (inst.splitModrm modrm.toNat).disp_size + 1 := by
        simp only [addressLength, List.getD_cons_zero, h0, Nat.add_zero]
        rw [hdispsize (rest.getD 0 0).toNat, Nat.add_comm]
        rfl
      rw [hstage, haddress, List.drop_succ_cons, List.length_cons]
      rcases decodeDisp_read inst (inst.splitModrm modrm.toNat) modrm [] rest rfl rfl rfl rfl
        (hsibsize.trans h0) rfl
        (fun h => absurd rfl h) h0.symm rfl hdisp (hdispsize _) with
        ⟨hlen, herror⟩ | ⟨disp, inst', hread, hdisplen, hrest, hok⟩
      · exact .inl ⟨by omega, herror⟩
      · refine .inr ⟨modrm, [], disp, inst', hread, ?_, ?_, hok⟩
        · rw [List.length_nil]
          omega
        · rw [List.nil_append, ← hrest]
    · cases rest with
      | nil =>
        left
        refine ⟨?_, ?_⟩
        · simp only [addressLength, List.getD_cons_zero, h1, List.length_singleton]
          omega
        rw [hrun, decodeSib, if_neg (by omega)]
        rfl
      | cons sib rest =>
        have hsibload : load 1 (sib :: rest) = .ok sib.toNat := by simp [load_eq, leNat]
        set base := (inst.splitModrm modrm.toNat).splitSib sib.toNat with hbase
        obtain ⟨hopcode, hpresize, hopsize, hmodrm, hsib, hbyte, hsibbyte, hdispzero, himm⟩ :=
          splitSib_frame (inst.splitModrm modrm.toNat) sib.toNat
        have hstage : decodeModrm inst (modrm :: sib :: rest) = decodeDisp base rest := by
          rw [hrun, decodeSib, if_neg (by omega), hsibload, hsibsize, h1]
          rfl
        have hdispsize : base.disp_size = dispLength modrm.toNat sib.toNat :=
          splitSib_disp inst _ _ h1
        have haddress : addressLength (modrm :: sib :: rest) = base.disp_size + 1 + 1 := by
          simp only [addressLength, List.getD_cons_zero, List.getD_cons_succ, h1, hdispsize]
          omega
        rw [hstage, haddress, List.drop_succ_cons, List.drop_succ_cons, List.length_cons,
          List.length_cons]
        rcases decodeDisp_read inst base modrm [sib] rest hopcode hpresize hopsize hmodrm
          (by rw [hsib, hsibsize, h1, List.length_singleton]) hbyte
          (fun _ => by rw [hsibbyte]; simp [leNat])
          (by rw [h1, List.length_singleton]) himm (hdispzero.trans hdisp)
          (by rw [hsibbyte, hdispsize]) with
          ⟨hlen, herror⟩ | ⟨disp, inst', hread, hdisplen, hrest, hok⟩
        · exact .inl ⟨by omega, herror⟩
        · refine .inr ⟨modrm, [sib], disp, inst', hread, ?_, ?_, hok⟩
          · rw [List.length_singleton]
            omega
          · rw [List.singleton_append, ← hrest]

lemma decodeImm_spec {inst : Instruction} {imm_size : ℕ} (buffer : List UInt8)
    (himm : inst.imm = 0)
    (hsize : imm_size = 0 ∨ imm_size = 1 ∨ imm_size = 2 ∨ imm_size = 4) :
    decodeImm imm_size inst buffer =
      if imm_size ≤ buffer.length then .ok { inst with
        imm_size := imm_size
        imm := leNat (buffer.take imm_size)
        size := inst.prefix_size + inst.opcode_size + inst.modrm_size + inst.sib_size +
          inst.disp_size + imm_size }
      else .error .outside := by
  unfold decodeImm
  rcases hsize with h0 | h1
  · subst h0
    rw [if_neg (by omega), if_pos (by omega), List.take_zero, leNat, ← himm]
    rfl
  · rw [if_pos (by omega), load_eq]
    split <;> rfl

def prefixMask (mask : ℕ) : List UInt8 → ℕ
  | [] => mask
  | byte :: bytes =>
    prefixMask (mask ||| if byte = 0xf2 then PrefixRepnz else if byte = 0xf3 then PrefixRep
      else if byte = 0x66 then PrefixOp else if byte = 0x67 then PrefixAddr else 0) bytes

/-- The fields that are still zero when the prefixes are decoded -/
structure Blank (inst : Instruction) : Prop where
  opcode : inst.opcode = 0
  modrm_size : inst.modrm_size = 0
  sib_size : inst.sib_size = 0
  disp_size : inst.disp_size = 0
  sib : inst.sib = 0
  disp : inst.disp = 0
  imm : inst.imm = 0

lemma decodePrefix_spec {inst : Instruction} {byte : UInt8} (hbyte : isPrefix byte = true)
    (hblank : Blank inst) : ∃ inst', decodePrefix inst byte = .ok inst' ∧ Blank inst' ∧
      inst'.prefix_size = inst.prefix_size ∧ prefixMask inst.prefixes [byte] = inst'.prefixes := by
  obtain ⟨h1, h2, h3, h4, h5, h6, h7⟩ := hblank
  simp only [isPrefix, asmPrefixes, List.contains_iff_mem, List.mem_cons, List.not_mem_nil,
    or_false] at hbyte
  rcases hbyte with rfl | rfl | rfl | rfl | rfl | rfl | rfl | rfl | rfl | rfl | rfl
  all_goals
    refine ⟨_, rfl, ⟨h1, h2, h3, h4, h5, h6, h7⟩, rfl, ?_⟩
    first | rfl | exact Nat.or_zero _

lemma decodePrefixes_spec (buffer : List UInt8) {inst : Instruction} (hblank : Blank inst) :
    (buffer.dropWhile isPrefix = [] ∧ decodePrefixes buffer inst = .error .outside) ∨
    ∃ inst', decodePrefixes buffer inst = .ok (inst', buffer.dropWhile isPrefix) ∧ Blank inst' ∧
      inst'.prefix_size = inst.prefix_size + (buffer.takeWhile isPrefix).length ∧
      inst'.prefixes = prefixMask inst.prefixes (buffer.takeWhile isPrefix) := by
  induction buffer generalizing inst with
  | nil => exact .inl ⟨rfl, rfl⟩
  | cons byte buffer ih =>
    by_cases hbyte : isPrefix byte = true
    · obtain ⟨inst₁, hok, hblank₁, hsize₁, hmask₁⟩ := decodePrefix_spec hbyte hblank
      rw [List.dropWhile_cons_of_pos hbyte, List.takeWhile_cons_of_pos hbyte, decodePrefixes,
        if_pos hbyte, hok]
      have hnext := @ih { inst₁ with prefix_size := inst₁.prefix_size + 1 }
        ⟨hblank₁.1, hblank₁.2, hblank₁.3, hblank₁.4, hblank₁.5, hblank₁.6, hblank₁.7⟩
      rcases hnext with hfail | ⟨inst', hok', hblank', hsize', hmask'⟩
      · exact .inl hfail
      · refine .inr ⟨inst', hok', hblank', ?_, ?_⟩
        · rw [hsize', List.length_cons, ← hsize₁, Nat.add_right_comm, Nat.add_assoc]
        · rw [hmask', ← hmask₁]
          rfl
    · right
      rw [List.dropWhile_cons_of_neg hbyte, List.takeWhile_cons_of_neg hbyte, decodePrefixes,
        if_neg hbyte]
      exact ⟨inst, rfl, hblank, rfl, rfl⟩

lemma mem_insertAt {table : ℕ → List Info} {info x : Info} {index count i : ℕ}
    (h : x ∈ insertAt table info index count i) : x ∈ table i ∨ x = info := by
  unfold insertAt at h
  split at h
  · simpa using h
  · exact .inl h

lemma mem_decTables {defs : List DefInst} {info : Info} {i : ℕ}
    (h : info ∈ (decTables defs).table i ∨ info ∈ (decTables defs).table0f i) :
    info ∈ instInfo defs := by
  have hfold : ∀ (infos : List Info) (tables : DecTables),
      (info ∈ (infos.foldl DecTables.insertInstInfo tables).table i ∨
        info ∈ (infos.foldl DecTables.insertInstInfo tables).table0f i) →
      (info ∈ tables.table i ∨ info ∈ tables.table0f i) ∨ info ∈ infos := by
    intro infos
    induction infos with
    | nil => exact fun _ h => .inl h
    | cons x infos ih =>
      intro tables h
      rw [List.foldl_cons] at h
      rcases ih _ h with hstep | hmem
      · unfold DecTables.insertInstInfo at hstep
        dsimp only at hstep
        split at hstep
        · rcases hstep with htable | htable
          · exact .inl (.inl htable)
          · rcases mem_insertAt htable with hold | rfl
            · exact .inl (.inr hold)
            · exact .inr List.mem_cons_self
        · rcases hstep with htable | htable
          · rcases mem_insertAt htable with hold | rfl
            · exact .inl (.inl hold)
            · exact .inr List.mem_cons_self
          · exact .inl (.inr htable)
      · exact .inr (List.mem_cons_of_mem _ hmem)
  rcases hfold (instInfo defs) {} h with (hnil | hnil) | hmem
  · cases hnil
  · cases hnil
  · exact hmem

section Derive

variable (info : Info) (op shift : ℕ)

def SameSizes (info info' : Info) (n : ℕ) : Prop :=
  info'.modrm_size = info.modrm_size ∧ info'.imm_size = info.imm_size ∧
    info'.opcode = info.opcode ∧ info'.opcode_size ≤ info.opcode_size + n

lemma addByte_sizes : SameSizes info (info.addByte op) 1 := ⟨rfl, rfl, rfl, le_rfl⟩

lemma addIndex_sizes : SameSizes info (info.addIndex op shift) 0 := by
  unfold Info.addIndex
  split <;> exact ⟨rfl, rfl, rfl, le_rfl⟩

lemma addIndex_opcode_size : (info.addIndex op shift).opcode_size = info.opcode_size := by
  unfold Info.addIndex
  split <;> rfl

lemma SameSizes.trans {info info' info'' : Info} {n k : ℕ} (h : SameSizes info info' n)
    (h' : SameSizes info' info'' k) : SameSizes info info'' (n + k) := by
  obtain ⟨h1, h2, h3, h4⟩ := h
  obtain ⟨h1', h2', h3', h4'⟩ := h'
  exact ⟨h1'.trans h1, h2'.trans h2, h3'.trans h3, by omega⟩

lemma addModrm_frame (h : info.modrm_size = 0) :
    (info.addModrm.modrm_size = 0 ∨ info.addModrm.modrm_size = 1) ∧
      info.addModrm.imm_size = info.imm_size ∧ info.addModrm.opcode = info.opcode ∧
      info.addModrm.opcode_size = info.opcode_size := by
  unfold Info.addModrm
  dsimp only
  split
  · exact ⟨.inl h, rfl, rfl, rfl⟩
  · split <;> split <;> exact ⟨.inr rfl, rfl, rfl, rfl⟩

lemma addImm_frame (h : info.imm_size = 0) :
    info.addImm.modrm_size = info.modrm_size ∧
      (info.addImm.imm_size = 0 ∨ info.addImm.imm_size = 1 ∨ info.addImm.imm_size = 2 ∨
        info.addImm.imm_size = 4) ∧ info.addImm.opcode = info.opcode ∧
      info.addImm.opcode_size = info.opcode_size := by
  unfold Info.addImm
  dsimp only
  split <;> split <;> split <;> simp [h]

lemma derive_sizes (hmodrm : info.modrm_size = 0) (himm : info.imm_size = 0)
    (hopcode : info.opcode_size = 0) :
    (info.derive.modrm_size = 0 ∨ info.derive.modrm_size = 1) ∧
      (info.derive.imm_size = 0 ∨ info.derive.imm_size = 1 ∨ info.derive.imm_size = 2 ∨
        info.derive.imm_size = 4) ∧
      info.derive.opcode = info.opcode ∧ 1 ≤ info.derive.opcode_size ∧
      info.derive.opcode_size ≤ 3 := by
  unfold Info.derive
  dsimp only
  obtain ⟨h1, h2, h3, h4⟩ := addModrm_frame info hmodrm
  set info₁ := info.addModrm
  have hop3 : SameSizes info₁
      (if has info₁.op3 SKIP then info₁ else info₁.addByte info₁.op3) 1 := by
    split
    · exact ⟨rfl, rfl, rfl, by omega⟩
    · exact addByte_sizes info₁ _
  set info₂ := if has info₁.op3 SKIP then info₁ else info₁.addByte info₁.op3
  have hop2 : SameSizes info₂ (if has info₂.op2 SKIP then info₂
      else (info₂.addByte info₂.op2).addIndex info₂.op2 8) 1 := by
    split
    · exact ⟨rfl, rfl, rfl, by omega⟩
    · exact (addByte_sizes info₂ _).trans (addIndex_sizes _ _ _)
  set info₃ := if has info₂.op2 SKIP then info₂
    else (info₂.addByte info₂.op2).addIndex info₂.op2 8
  have hop1 := (addByte_sizes info₃ info₃.op1).trans (addIndex_sizes _ info₃.op1 0)
  obtain ⟨h5, h6, h7, h8⟩ := (hop3.trans hop2).trans hop1
  obtain ⟨h9, h10, h11, h12⟩ := addImm_frame ((info₃.addByte info₃.op1).addIndex info₃.op1 0)
    (by rw [h6, h2, himm])
  refine ⟨?_, h10, by rw [h11, h7, h3], ?_, by omega⟩
  · rw [h9, h5]
    exact h1
  · rw [h12, addIndex_opcode_size]
    exact Nat.succ_pos _

end Derive

lemma instInfo_sizes {defs : List DefInst} {info : Info} (h : info ∈ instInfo defs) :
    (info.modrm_size = 0 ∨ info.modrm_size = 1) ∧
      (info.imm_size = 0 ∨ info.imm_size = 1 ∨ info.imm_size = 2 ∨ info.imm_size = 4) ∧
      info.opcode ≠ 0 ∧ 1 ≤ info.opcode_size ∧ info.opcode_size ≤ 3 := by
  obtain ⟨i, hi, rfl⟩ := List.mem_mapIdx.mp h
  obtain ⟨h1, h2, h3, h4⟩ := derive_sizes
    { opcode := i + 1, op1 := defs[i].op1, op2 := defs[i].op2, op3 := defs[i].op3,
      modrm := defs[i].modrm, imm := defs[i].imm, prefixes := defs[i].prefixes } rfl rfl rfl
  exact ⟨h1, h2, by rw [h3]; exact Nat.succ_ne_zero i, h4⟩

section Buffer

variable (defs : List DefInst) (buffer : List UInt8)

def lookup (bytes : List UInt8) : List Info :=
  if (bytes.getD 0 0).toNat = 0x0f then (decTables defs).table0f (bytes.getD 1 0).toNat
  else (decTables defs).table (bytes.getD 0 0).toNat

def entry : Option Info :=
  let rest := buffer.dropWhile isPrefix
  (lookup defs rest).find? (Info.matches (prefixMask 0 (buffer.takeWhile isPrefix))
    (BitVec.ofNat 32 (leNat (rest.take 4))))

/-- The buffer has four bytes behind the prefixes, and all bytes that the entry asks for. -/
structure EncodingFits : Prop where
  four : 4 ≤ (buffer.dropWhile isPrefix).length
  fields : ∀ info, entry defs buffer = some info →
    encodingLength info (buffer.dropWhile isPrefix) ≤ (buffer.dropWhile isPrefix).length

/-- `Decode` returns without a read outside the buffer, and what it recognises are the first
bytes of the buffer. -/
def DecodesInside (eip : ℕ) : Prop :=
  ∃ inst, decode defs buffer eip = .ok inst ∧ (inst.opcode ≠ 0 →
    ∃ pre opcode modrm sib disp imm, Encodes buffer inst pre opcode modrm sib disp imm)

end Buffer

lemma decode_eq (defs : List DefInst) {buffer : List UInt8} {eip : ℕ} {inst : Instruction}
    (hprefixes : decodePrefixes buffer { eip := eip, op_size := 4, addr_size := 4 } =
      .ok (inst, buffer.dropWhile isPrefix))
    (hmask : inst.prefixes = prefixMask 0 (buffer.takeWhile isPrefix))
    (hfour : 4 ≤ (buffer.dropWhile isPrefix).length) :
    decode defs buffer eip =
      match entry defs buffer with
      | none => .ok inst
      | some info => decodeFields info (leNat ((buffer.dropWhile isPrefix).take 4)) inst
        (buffer.dropWhile isPrefix) := by
  unfold decode entry
  rw [hprefixes]
  set rest := buffer.dropWhile isPrefix
  have h1 : load 1 rest = .ok (rest.getD 0 0).toNat := by
    rw [load_eq, if_pos (by omega), leNat_take_one (by omega)]
  have h4 : load 4 rest = .ok (leNat (rest.take 4)) := by rw [load_eq, if_pos hfour]
  have hlist : decodeList defs (rest.getD 0 0).toNat rest = .ok (lookup defs rest) := by
    have hlen : 1 ≤ (rest.drop 1).length := by
      rw [List.length_drop]
      omega
    have hsecond : load 1 (rest.drop 1) = .ok (rest.getD 1 0).toNat := by
      rw [load_eq, if_pos hlen, leNat_take_one hlen]
      simp [List.getD_eq_getElem?_getD]
    unfold decodeList lookup
    split
    · rw [hsecond]
      rfl
    · rfl
  simp only [bind, Except.bind, h1, h4, hlist, hmask]
  rfl

lemma take_whole (buffer whole tail : List UInt8) (size : ℕ) (hbuffer : buffer = whole ++ tail)
    (hsize : size = whole.length) : buffer.take size = whole ∧ size ≤ buffer.length := by
  subst hbuffer hsize
  exact ⟨List.take_left, by rw [List.length_append]; omega⟩

/-- The fields of an entry are read, or are not all there. -/
lemma decodeFields_spec {info : Info} {inst : Instruction} (pre bytes : List UInt8) (buf32 : ℕ)
    (hmodrm : info.modrm_size = 0 ∨ info.modrm_size = 1)
    (himm : info.imm_size = 0 ∨ info.imm_size = 1 ∨ info.imm_size = 2 ∨ info.imm_size = 4)
    (hopcode : info.opcode_size ≤ bytes.length) (hblank : Blank inst)
    (hpre : inst.prefix_size = pre.length) (hwhile : pre = (pre ++ bytes).takeWhile isPrefix) :
    (bytes.length < encodingLength info bytes ∧
      decodeFields info buf32 inst bytes = .error .outside) ∨
    encodingLength info bytes ≤ bytes.length ∧ ∃ inst' opcode modrm sib disp imm,
      decodeFields info buf32 inst bytes = .ok inst' ∧ opcode.length = info.opcode_size ∧
      Encodes (pre ++ bytes) inst' pre opcode modrm sib disp imm := by
  set inst₁ := { inst with
    opcode := info.opcode
    opcode_size := info.opcode_size
    modrm_size := info.modrm_size
    opindex := (buf32 >>> info.opindex_shift) &&& 0x7 } with hinst₁
  have hrun : decodeFields info buf32 inst bytes =
      (decodeModrm inst₁ (bytes.drop info.opcode_size) >>= fun r =>
        decodeImm info.imm_size r.1 r.2) := rfl
  have hoplen : (bytes.take info.opcode_size).length = info.opcode_size := by
    rw [List.length_take, Nat.min_eq_left hopcode]
  have hbytes : bytes = bytes.take info.opcode_size ++ bytes.drop info.opcode_size :=
    (List.take_append_drop _ _).symm
  have hlen : bytes.length = info.opcode_size + (bytes.drop info.opcode_size).length := by
    rw [List.length_drop]
    omega
  rw [hrun, encodingLength]
  set field := bytes.drop info.opcode_size
  rcases hmodrm with h0 | h1
  · -- no ModR/M byte
    have hstage : decodeModrm inst₁ field = .ok (inst₁, field) := if_pos h0
    rw [hstage, if_pos h0]
    change _ ∧ decodeImm info.imm_size inst₁ field = _ ∨ _ ∧ ∃ inst' opcode modrm sib disp imm,
      decodeImm info.imm_size inst₁ field = _ ∧ _ ∧ _
    have himm₁ : inst₁.imm = 0 := hblank.imm
    rw [decodeImm_spec field himm₁ himm]
    by_cases hfit : info.imm_size ≤ field.length
    · right
      have himmlen : (field.take info.imm_size).length = info.imm_size := by
        rw [List.length_take, Nat.min_eq_left hfit]
      rw [if_pos hfit]
      refine ⟨by omega, _, bytes.take info.opcode_size, [], [], [], field.take info.imm_size,
        rfl, hoplen, ?_⟩
      have hwhole := take_whole (pre ++ bytes)
        (pre ++ (bytes.take info.opcode_size ++ ([] ++ ([] ++ ([] ++
          field.take info.imm_size))))) (field.drop info.imm_size)
        (inst.prefix_size + info.opcode_size + info.modrm_size + inst.sib_size +
          inst.disp_size + info.imm_size)
        (by simp only [List.nil_append, List.append_assoc, List.take_append_drop]; rw [← hbytes])
        (by
          simp only [List.length_append, List.length_nil, hoplen, himmlen]
          rw [hpre, h0, hblank.sib_size, hblank.disp_size]
          omega)
      exact
        { bytes := hwhole.1
          inside := hwhole.2
          sizes := ⟨hpre, hoplen.symm, h0, hblank.sib_size, hblank.disp_size, himmlen.symm⟩
          size := by
            rw [hoplen, himmlen, ← hpre]
            change inst.prefix_size + info.opcode_size + info.modrm_size + inst.sib_size +
              inst.disp_size + info.imm_size = _
            rw [h0, hblank.sib_size, hblank.disp_size]
            rfl
          prefixes := hwhile
          modrmByte := fun h => absurd rfl h
          sibByte := fun h => absurd rfl h
          sibLength := rfl
          dispLength := rfl
          dispBytes := hblank.disp.trans (signed_zero _).symm
          immBytes := rfl }
    · rw [if_neg hfit]
      exact .inl ⟨by omega, rfl⟩
  · rw [if_neg (by omega)]
    rcases decodeModrm_spec inst₁ field h1 hblank.disp with
      ⟨hshort, herror⟩ | ⟨modrm, sib, disp, inst₂, hread, haddress, hfield, hok⟩
    · rw [herror]
      exact .inl ⟨by omega, rfl⟩
    set tail := field.drop (addressLength field)
    have hfieldlen : field.length = 1 + sib.length + disp.length + tail.length := by
      rw [hfield]
      simp only [List.length_cons, List.length_append]
      omega
    rw [hok]
    change _ ∧ decodeImm info.imm_size inst₂ tail = _ ∨ _ ∧ ∃ inst' opcode modrm sib disp imm,
      decodeImm info.imm_size inst₂ tail = _ ∧ _ ∧ _
    rw [decodeImm_spec tail (hread.imm.trans hblank.imm) himm]
    by_cases hfit : info.imm_size ≤ tail.length
    · right
      have himmlen : (tail.take info.imm_size).length = info.imm_size := by
        rw [List.length_take, Nat.min_eq_left hfit]
      rw [if_pos hfit]
      refine ⟨by omega, _, bytes.take info.opcode_size, [modrm], sib, disp,
        tail.take info.imm_size, rfl, hoplen, ?_⟩
      have hsum : inst₂.prefix_size + inst₂.opcode_size + inst₂.modrm_size + inst₂.sib_size +
          inst₂.disp_size + info.imm_size = pre.length + info.opcode_size + 1 + sib.length +
          disp.length + info.imm_size := by
        have hp : inst₂.prefix_size = pre.length := hread.prefix_size.trans hpre
        have ho : inst₂.opcode_size = info.opcode_size := hread.opcode_size
        have hm : inst₂.modrm_size = 1 := hread.modrm_size.trans h1
        rw [hp, ho, hm, hread.sib_size, hread.disp_size]
      have hwhole := take_whole (pre ++ bytes)
        (pre ++ (bytes.take info.opcode_size ++ ([modrm] ++ (sib ++ (disp ++
          tail.take info.imm_size))))) (tail.drop info.imm_size)
        (inst₂.prefix_size + inst₂.opcode_size + inst₂.modrm_size + inst₂.sib_size +
          inst₂.disp_size + info.imm_size)
        (by
          simp only [List.append_assoc, List.take_append_drop, List.cons_append, List.nil_append]
          rw [← hfield, ← hbytes])
        (by
          rw [hsum]
          simp only [List.length_append, List.length_singleton, hoplen, himmlen]
          omega)
      exact
        { bytes := hwhole.1
          inside := hwhole.2
          sizes := ⟨hread.prefix_size.trans hpre, hread.opcode_size.trans hoplen.symm,
            hread.modrm_size.trans h1, hread.sib_size, hread.disp_size, himmlen.symm⟩
          size := by
            rw [hoplen, himmlen]
            exact hsum
          prefixes := hwhile
          modrmByte := fun _ => by
            rw [leNat, leNat]
            exact hread.modrmByte
          sibByte := hread.sibByte
          sibLength := by
            rw [if_neg (by simp)]
            exact hread.sibLength.trans (congrArg _ hread.modrmByte.symm)
          dispLength := by
            rw [if_neg (by simp), hread.dispLength]
            exact congrArg (dispLength · _) hread.modrmByte.symm
          dispBytes := hread.dispBytes
          immBytes := rfl }
    · rw [if_neg hfit]
      exact .inl ⟨by omega, rfl⟩

/-- `Decode` reads outside of the buffer, or returns with what it recognised in front. -/
lemma decode_cases (defs : List DefInst) (buffer : List UInt8) (eip : ℕ) :
    (¬EncodingFits defs buffer ∧ decode defs buffer eip = .error .outside) ∨
    EncodingFits defs buffer ∧ ∃ inst, decode defs buffer eip = .ok inst ∧ (inst.opcode ≠ 0 →
      ∃ pre opcode modrm sib disp imm, 1 ≤ opcode.length ∧
        Encodes buffer inst pre opcode modrm sib disp imm) := by
  have hblank : Blank { eip := eip, op_size := 4, addr_size := 4 } :=
    ⟨rfl, rfl, rfl, rfl, rfl, rfl, rfl⟩
  have hsplit : buffer.takeWhile isPrefix ++ buffer.dropWhile isPrefix = buffer :=
    List.takeWhile_append_dropWhile
  rcases decodePrefixes_spec buffer hblank with ⟨hnil, herror⟩ | ⟨inst, hok, hinst, hsize, hmask⟩
  · -- nothing but prefixes
    refine .inl ⟨fun h => ?_, by rw [decode, herror]; rfl⟩
    have hfour := h.four
    rw [hnil] at hfour
    simp at hfour
  by_cases hfour : 4 ≤ (buffer.dropWhile isPrefix).length
  · have hrun := decode_eq defs hok hmask hfour
    cases hentry : entry defs buffer with
    | none =>
      rw [hentry] at hrun
      refine .inr ⟨⟨hfour, fun info h => ?_⟩, inst, hrun, fun hne => absurd hinst.opcode hne⟩
      rw [hentry] at h
      cases h
    | some info =>
      rw [hentry] at hrun
      have hmem : info ∈ instInfo defs := by
        refine mem_decTables (i := ?_) ?_
        · exact if (((buffer.dropWhile isPrefix).getD 0 0).toNat) = 0x0f then
            ((buffer.dropWhile isPrefix).getD 1 0).toNat
          else ((buffer.dropWhile isPrefix).getD 0 0).toNat
        · have hfound := List.mem_of_find?_eq_some hentry
          unfold lookup at hfound
          split at hfound
          · rename_i h0f
            rw [if_pos h0f]
            exact .inr hfound
          · rename_i h0f
            rw [if_neg h0f]
            exact .inl hfound
      obtain ⟨hmodrm, himm, -, hpos, hopcode⟩ := instInfo_sizes hmem
      have hfields := decodeFields_spec (buffer.takeWhile isPrefix) (buffer.dropWhile isPrefix)
        (leNat ((buffer.dropWhile isPrefix).take 4)) hmodrm himm (by omega) hinst
        (hsize.trans (Nat.zero_add _)) (by rw [hsplit])
      rw [hsplit] at hfields
      rcases hfields with ⟨hlen, herror⟩ |
        ⟨hlen, inst', opcode, modrm, sib, disp, imm, hok', hlength, henc⟩
      · refine .inl ⟨fun h => ?_, hrun.trans herror⟩
        have hfits := h.fields info hentry
        omega
      · refine .inr ⟨⟨hfour, fun info' h => ?_⟩, inst', hrun.trans hok', fun _ =>
          ⟨_, opcode, modrm, sib, disp, imm, by rw [hlength]; exact hpos, henc⟩⟩
        rw [hentry, Option.some.injEq] at h
        rw [← h]
        exact hlen
  · -- fewer than four bytes behind the prefixes
    refine .inl ⟨fun h => absurd h.four hfour, ?_⟩
    unfold decode
    rw [hok]
    set rest := buffer.dropWhile isPrefix
    change (load 1 rest >>= fun buf8 => load 4 rest >>= fun buf32 => _) = _
    have h4 : load 4 rest = .error .outside := by rw [load_eq, if_neg hfour]
    rw [h4, load_eq]
    split <;> rfl

lemma size_of_decode {defs : List DefInst} {buffer : List UInt8} {eip : ℕ} {inst : Instruction}
    (h : decode defs buffer eip = .ok inst) (hopcode : inst.opcode ≠ 0) :
    1 ≤ inst.size ∧ inst.size ≤ buffer.length := by
  rcases decode_cases defs buffer eip with ⟨-, herror⟩ | ⟨-, inst', hok, henc⟩
  · rw [h] at herror
    cases herror
  · obtain rfl : inst = inst' := by
      rw [h] at hok
      exact Except.ok.inj hok
    obtain ⟨pre, opcode, modrm, sib, disp, imm, hpos, henc⟩ := henc hopcode
    have hsize := henc.size
    exact ⟨by omega, henc.inside⟩

/-- `Decode` stays in its buffer, with the exact size of what it recognises, exactly when the
bytes it needs are there. -/
theorem decode_inside_iff (defs : List DefInst) (buffer : List UInt8) (eip : ℕ) :
    DecodesInside defs buffer eip ↔ EncodingFits defs buffer := by
  rcases decode_cases defs buffer eip with ⟨hno, herror⟩ | ⟨hfits, inst, hok, henc⟩
  · refine iff_of_false ?_ hno
    rintro ⟨inst, hok, -⟩
    rw [herror] at hok
    cases hok
  · refine iff_of_true ⟨inst, hok, fun hopcode => ?_⟩ hfits
    obtain ⟨pre, opcode, modrm, sib, disp, imm, -, henc⟩ := henc hopcode
    exact ⟨pre, opcode, modrm, sib, disp, imm, henc⟩

/-- Twenty prefixes in the buffer of `Context::Execute` -/
theorem decode_prefixes_outside :
    ¬ ∃ defs, ∀ (buffer : List UInt8) (eip : ℕ), DecodesInside defs buffer eip := by
  rintro ⟨defs, h⟩
  obtain ⟨inst, hok, -⟩ := h (List.replicate 20 0x66) 0
  have hrun : decode defs (List.replicate 20 0x66) 0 = .error .outside := rfl
  rw [hrun] at hok
  cases hok

/-! ### Fields of three bits -/

structure Narrow (inst : Instruction) : Prop where
  opindex : inst.opindex < 8
  reg : inst.modrm_reg < 8
  rm : inst.modrm_rm < 8

section Narrow

variable {inst inst' : Instruction} {buffer rest : List UInt8}

lemma bind_ok {α β : Type} {x : Except DecodeError α} {f : α → Except DecodeError β} {b : β}
    (h : x >>= f = .ok b) : ∃ a, x = .ok a ∧ f a = .ok b := by
  cases x with
  | error e => cases h
  | ok a => exact ⟨a, rfl, h⟩

lemma Narrow.decodePrefixes (hnarrow : Narrow inst)
    (h : decodePrefixes buffer inst = .ok (inst', rest)) : Narrow inst' := by
  induction buffer generalizing inst with
  | nil => cases h
  | cons byte buffer ih =>
    unfold Decoder.decodePrefixes at h
    split_ifs at h with hbyte
    · obtain ⟨next, hnext, h⟩ := bind_ok h
      refine ih ?_ h
      simp only [isPrefix, asmPrefixes, List.contains_iff_mem, List.mem_cons, List.not_mem_nil,
        or_false] at hbyte
      rcases hbyte with rfl | rfl | rfl | rfl | rfl | rfl | rfl | rfl | rfl | rfl | rfl
      all_goals
        cases hnext
        exact ⟨hnarrow.opindex, hnarrow.reg, hnarrow.rm⟩
    · cases h
      exact hnarrow

lemma Narrow.decodeSib (hnarrow : Narrow inst) (h : decodeSib inst buffer = .ok (inst', rest)) :
    Narrow inst' := by
  unfold Decoder.decodeSib at h
  split_ifs at h
  · cases h
    exact hnarrow
  · obtain ⟨sib, -, h⟩ := bind_ok h
    cases h
    unfold Instruction.splitSib
    dsimp only
    split <;> exact ⟨hnarrow.opindex, hnarrow.reg, hnarrow.rm⟩

lemma Narrow.decodeDisp (hnarrow : Narrow inst) (h : decodeDisp inst buffer = .ok (inst', rest)) :
    Narrow inst' := by
  unfold Decoder.decodeDisp at h
  split_ifs at h
  · obtain ⟨disp, -, h⟩ := bind_ok h
    cases h
    exact ⟨hnarrow.opindex, hnarrow.reg, hnarrow.rm⟩
  · cases h
    exact hnarrow

lemma Narrow.splitModrm (hnarrow : Narrow inst) (modrm : ℕ) : Narrow (inst.splitModrm modrm) where
  opindex := hnarrow.opindex
  reg := by
    change (modrm &&& 0x38) >>> 3 < 8
    have hle : modrm &&& 0x38 ≤ 0x38 := Nat.and_le_right
    rw [Nat.shiftRight_eq_div_pow]
    omega
  rm := Nat.lt_succ_of_le Nat.and_le_right

lemma Narrow.decodeFields {info : Info} {buf32 : ℕ} (hnarrow : Narrow inst)
    (h : decodeFields info buf32 inst buffer = .ok inst') : Narrow inst' := by
  obtain ⟨⟨base, rest⟩, hmodrm, himm⟩ := bind_ok h
  have hbase : Narrow base := by
    have hindex : buf32 >>> info.opindex_shift &&& 0x7 < 8 := Nat.lt_succ_of_le Nat.and_le_right
    unfold decodeModrm at hmodrm
    split_ifs at hmodrm
    · cases hmodrm
      exact ⟨hindex, hnarrow.reg, hnarrow.rm⟩
    · obtain ⟨modrm, -, hmodrm⟩ := bind_ok hmodrm
      obtain ⟨⟨base', rest'⟩, hsib, hdisp⟩ := bind_ok hmodrm
      refine Narrow.decodeDisp (Narrow.decodeSib (Narrow.splitModrm ?_ modrm) hsib) hdisp
      exact ⟨hindex, hnarrow.reg, hnarrow.rm⟩
  unfold decodeImm at himm
  dsimp only at himm
  split_ifs at himm
  · obtain ⟨n, -, himm⟩ := bind_ok himm
    cases himm
    exact ⟨hbase.opindex, hbase.reg, hbase.rm⟩
  · cases himm
    exact ⟨hbase.opindex, hbase.reg, hbase.rm⟩

theorem narrow_of_decode {defs : List DefInst} {eip : ℕ}
    (h : decode defs buffer eip = .ok inst) : Narrow inst := by
  obtain ⟨⟨base, rest⟩, hprefixes, h⟩ := bind_ok h
  have hbase : Narrow base :=
    Narrow.decodePrefixes ⟨Nat.succ_pos 7, Nat.succ_pos 7, Nat.succ_pos 7⟩ hprefixes
  obtain ⟨buf8, -, h⟩ := bind_ok h
  obtain ⟨buf32, -, h⟩ := bind_ok h
  obtain ⟨list, -, h⟩ := bind_ok h
  split at h
  · cases h
    exact hbase
  · exact hbase.decodeFields h

end Narrow

end OISA.X86.Decoder
