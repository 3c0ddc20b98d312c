import OISA.Proofs.DecoderBounds
import OISA.Proofs.SpeculativeIsolation
import OISA.X86.Speculation

/-!
# Permissions of instruction fetches

`Execute` fetches a window of 20 bytes.
-/

namespace OISA.X86.Speculation

open OISA.Lib

variable {m : Memory} {eip : Word}

/-- The window lies in one page, and the page is mapped. -/
def InOnePage (m : Memory) (eip : Word) : Prop :=
  (eip &&& (Memory.PageSize - 1#32)).toNat + 20 ≤ Memory.PageSize.toNat ∧ (m.getPage eip).isSome

/-- All bytes of a range are mapped with the permission to execute. -/
def Executable (m : Memory) (eip : Word) (size : ℕ) : Prop := m.view.AllowsRange eip size .Exec

lemma allows_exec_iff (a : Word) : m.view.Allows a .Exec ↔
    ∃ page, m.getPage a = some page ∧ page.allows .Exec = true := by
  have hguest (perm : BitVec 32) : FlatMemory.guest perm &&& Memory.AccessType.Exec.bits =
      perm &&& Memory.AccessType.Exec.bits := by
    have hmask : ~~~ Memory.AccessType.Modified.bits &&& Memory.AccessType.Exec.bits =
        Memory.AccessType.Exec.bits := by decide
    rw [FlatMemory.guest, BitVec.and_assoc, hmask]
  unfold FlatMemory.Allows Memory.view
  constructor
  · rintro ⟨cell, hcell, hperm⟩
    obtain ⟨page, hpage, rfl⟩ := Option.map_eq_some_iff.mp hcell
    refine ⟨page, hpage, decide_eq_true ?_⟩
    rwa [Memory.Page.cell, hguest] at hperm
  · rintro ⟨page, hpage, hallows⟩
    refine ⟨page.cell a, by rw [hpage]; rfl, ?_⟩
    rw [Memory.Page.cell, hguest]
    exact of_decide_eq_true hallows

lemma getPage_window (h : InOnePage m eip) {i : ℕ} (hi : i < 20) :
    m.getPage (eip + BitVec.ofNat 32 i) = m.getPage eip := by
  apply Memory.getPage_of_tag
  have hoffset : (pageOffset Memory.LogPageSize eip).toNat + 20 ≤ 2 ^ Memory.LogPageSize := h.1
  exact pageTag_add_ofNat Memory.logPageSize_lt (by omega)

lemma fetchBuffer_unchecked (h : ¬InOnePage m eip) :
    fetchBuffer true m false eip = some (m.view.bytes eip 20, { m with safe := true }) := by
  have hnone : getBuffer { m with safe := true } eip 20 .Exec =
      some (none, { m with safe := true }) := by
    unfold getBuffer
    dsimp only
    by_cases hcross : Memory.PageSize.toNat <
        (eip &&& (Memory.PageSize - 1#32)).toNat + 20
    · rw [if_pos hcross]
    · rw [if_neg hcross]
      have hpage : { m with safe := true }.getPage eip = none := by
        rw [← Option.not_isSome_iff_eq_none]
        exact fun hsome => h ⟨not_lt.mp hcross, hsome⟩
      rw [hpage]
  unfold fetchBuffer
  rw [if_neg Bool.false_ne_true, hnone]
  dsimp only
  rw [SpecMem.unsafe_access rfl (.inr rfl), List.length_replicate]
  rfl

lemma fetchBuffer_checked {page : Memory.Page} (h : InOnePage m eip)
    (hpage : m.getPage eip = some page) :
    fetchBuffer true m false eip = none ↔ page.allows .Exec = false := by
  have hbuffer : getBuffer { m with safe := true } eip 20 .Exec =
      if page.allows .Exec = false then none
      else some (some ((List.range 20).map fun i =>
          page.AllocateData ((eip &&& (Memory.PageSize - 1#32)).toNat + i)),
        { m with safe := true }.setPage eip (some (page.setData page.AllocateData))) := by
    unfold getBuffer
    dsimp only
    have hsafe : { m with safe := true }.getPage eip = some page := hpage
    rw [if_neg (not_lt.mpr h.1), hsafe]
    dsimp only
    cases page.allows .Exec with
    | false => rw [if_pos rfl, if_pos (by decide)]
    | true => rw [if_neg (by decide), if_neg (by decide)]
  unfold fetchBuffer
  rw [if_neg Bool.false_ne_true, hbuffer]
  cases page.allows .Exec with
  | false => exact iff_of_true rfl rfl
  | true =>
    rw [if_neg (by decide)]
    exact iff_of_false (Option.some_ne_none _) (by decide)

/-- **Instruction fetch**: a memory error is raised exactly when some byte of the instruction
may not be executed, if the window lies in one mapped page or all bytes of the instruction may
be executed, and in no other case. -/
theorem fetchBuffer_exact_iff {defs : List Decoder.DefInst} {m : Memory} {eip : Word}
    {inst : Decoder.Instruction}
    (hdecode : Decoder.decode defs (m.view.bytes eip 20) eip.toNat = .ok inst)
    (hopcode : inst.opcode ≠ 0) :
    (fetchBuffer true m false eip = none ↔ ¬Executable m eip inst.size) ↔
      InOnePage m eip ∨ Executable m eip inst.size := by
  obtain ⟨hpos, hsize⟩ := Decoder.size_of_decode hdecode hopcode
  rw [FlatMemory.bytes, List.length_map, List.length_range] at hsize
  by_cases hwindow : InOnePage m eip
  · refine iff_of_true ?_ (.inl hwindow)
    obtain ⟨page, hpage⟩ := Option.isSome_iff_exists.mp hwindow.2
    rw [fetchBuffer_checked hwindow hpage]
    -- all bytes of the instruction are in the page of the first one
    have hall : Executable m eip inst.size ↔ page.allows .Exec = true := by
      have hbyte : ∀ i < 20, m.view.Allows (eip + BitVec.ofNat 32 i) .Exec ↔
          page.allows .Exec = true := by
        intro i hi
        rw [allows_exec_iff, getPage_window hwindow hi, hpage]
        constructor
        · rintro ⟨page', hpage', hallows⟩
          rwa [Option.some.inj hpage']
        · exact fun hallows => ⟨page, rfl, hallows⟩
      constructor
      · exact fun hrange => (hbyte 0 (by norm_num)).mp (hrange 0 (by omega))
      · exact fun hallows i hi => (hbyte i (by omega)).mpr hallows
    rw [hall, Bool.not_eq_true]
  · rw [fetchBuffer_unchecked hwindow, or_iff_right hwindow]
    constructor
    · intro hiff
      by_contra hno
      exact absurd (hiff.mpr hno) (Option.some_ne_none _)
    · exact fun hexec => iff_of_false (Option.some_ne_none _) (not_not.mpr hexec)

def addDef : Decoder.DefInst where
  op1 := 0x00
  op2 := Decoder.SKIP
  op3 := Decoder.SKIP
  modrm := Decoder.REG
  imm := Decoder.SKIP
  prefixes := 0

def addInst : Decoder.Instruction where
  eip := 0x1000
  size := 2
  opcode := 1
  opcode_size := 1
  modrm_size := 1
  op_size := 4
  addr_size := 4
  ea_base := .eax

lemma decode_zeros : Decoder.decode [addDef] (({} : Memory).view.bytes 0x1000#32 20)
    (0x1000#32).toNat = .ok addInst := by
  rfl

def executablePage : Memory :=
  ({} : Memory).setPage 0x1000#32 (some (Memory.Page.new 0x1000#32 Memory.AccessType.Exec.bits))

/-- An instruction at the start of an executable page is fetched. -/
theorem fetchBuffer_exact_page :
    (fetchBuffer true executablePage false 0x1000#32 = none ↔
      ¬Executable executablePage 0x1000#32 2) :=
  (@fetchBuffer_exact_iff [addDef] executablePage 0x1000#32 addInst rfl (by decide)).mpr
    (.inl ⟨by decide, rfl⟩)

/-- Instructions are fetched from an address without a page, as zeros. -/
theorem not_fetchBuffer_exact : ¬∀ (defs : List Decoder.DefInst) (m : Memory) (eip : Word)
    (inst : Decoder.Instruction),
    Decoder.decode defs (m.view.bytes eip 20) eip.toNat = .ok inst → inst.opcode ≠ 0 →
    (fetchBuffer true m false eip = none ↔ ¬Executable m eip inst.size) := by
  intro h
  have hiff := h [addDef] {} 0x1000#32 addInst decode_zeros (by decide)
  have hunmapped : ¬Executable {} 0x1000#32 2 := by
    intro hall
    obtain ⟨cell, hcell, -⟩ := hall 0 (by norm_num)
    cases hcell
  have hpage : ¬InOnePage {} 0x1000#32 := fun hpage => Bool.false_ne_true hpage.2
  rw [fetchBuffer_unchecked hpage] at hiff
  exact Option.some_ne_none _ (hiff.mpr hunmapped)

end OISA.X86.Speculation
