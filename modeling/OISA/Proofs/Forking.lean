import OISA.Proofs.MemoryRefinement
import OISA.X86.Fork

/-!
# What a fork copies

A copied memory looks like the original one.
-/

namespace OISA.X86.Fork

open OISA.Lib OISA.Memory OISA.X86.AddressSpace

section Memories

variable {m m' : Memory} {page : Page} {pages : List Page} {heap copy : Heap}

/-- The pages of a memory in some order, each of them under its tag -/
structure Lists (pages : List Page) (m : Memory) : Prop where
  nodup : (pages.map Page.tag).Nodup
  page : ∀ a page, m.getPage a = some page ↔ page ∈ pages ∧ page.tag = pageTag LogPageSize a

lemma pageTag_tag (page : Page) : pageTag LogPageSize page.tag = page.tag := by
  rw [pageTag_eq_sub, page.aligned, BitVec.sub_zero]

lemma new_tag (page : Page) : Page.new page.tag page.perm = { page with data := none } := by
  unfold Page.new
  congr 1
  exact pageTag_tag page

lemma copyPage_spec (hsafe : m.safe = false) (hnone : m.getPage page.tag = none) :
    ∃ m', copyPage page m = some m' ∧ m'.safe = false ∧ ∀ a, m'.view a =
      if pageTag LogPageSize a = page.tag then some (page.cell a) else m.view a := by
  have hnew : m.newPage page.tag page.perm =
      some (m.setPage page.tag (some { page with data := none }), { page with data := none }) := by
    rw [newPage, hnone, new_tag]
  unfold copyPage
  rw [hnew, Option.bind_eq_bind, Option.bind_some]
  cases hdata : page.data with
  | none =>
    refine ⟨_, rfl, hsafe, fun a => ?_⟩
    rw [view_setPage, pageTag_tag, ← hdata]
  | some data =>
    set buffer := (List.range PageSize.toNat).map data with hbuffer
    have hlen : buffer.length = 4096 := by
      rw [hbuffer, List.length_map, List.length_range]
      rfl
    have hinside : (pageOffset LogPageSize page.tag).toNat + buffer.length ≤ 2 ^ LogPageSize := by
      rw [page.aligned, hlen]
      decide
    set created := m.setPage page.tag (some { page with data := none }) with hcreated
    have hget : created.getPage page.tag = some { page with data := none } :=
      getPage_setPage_of_tag rfl
    have hallowed : ¬ ({ page with data := none } : Page).Denied created.safe .Init := by
      rw [hcreated, setPage_safe, hsafe, Page.Denied, Bool.false_and]
      exact Bool.false_ne_true
    have haccess : created.Access page.tag buffer .Init = created.onPage page.tag
        ⟨page.setData (memcpy (fun _ => 0) 0 buffer), buffer, none⟩ := by
      have hne : buffer ≠ [] := List.ne_nil_of_length_pos (by omega)
      rw [access_eq_bytewise, ← bytewise_of_splits logPageSize_lt splits_access hne hinside,
        accessAtPageBoundary_of_page hget hinside, Page.access_write hallowed (.inr rfl),
        page.aligned]
      rfl
    refine ⟨created.setPage page.tag (some (page.setData (memcpy (fun _ => 0) 0 buffer))), ?_,
      hsafe, fun a => ?_⟩
    · dsimp only
      rw [← hbuffer, haccess]
      rfl
    rw [view_setPage, hcreated, view_setPage, pageTag_tag]
    split_ifs with ha
    · have hoffset : (pageOffset LogPageSize a).toNat < PageSize.toNat :=
        pageOffset_lt logPageSize_lt
      have hcell (data : ℕ → UInt8) : (page.setData data).cell a =
          ⟨FlatMemory.guest page.perm, data (pageOffset LogPageSize a).toNat⟩ := rfl
      have hbyte : memcpy (fun _ => 0) 0 buffer (pageOffset LogPageSize a).toNat =
          data (pageOffset LogPageSize a).toNat := by
        rw [memcpy, if_pos (Nat.zero_le _), Nat.sub_zero, hbuffer, List.getElem?_map,
          List.getElem?_range hoffset]
        rfl
      have horiginal : page.AllocateData = data := by
        rw [Page.AllocateData, hdata]
        rfl
      rw [hcell, hbyte, Page.cell, horiginal]
    · rfl

lemma run_copyPage (hsafe : m.safe = false) (hnodup : (pages.map Page.tag).Nodup)
    (hnew : ∀ page ∈ pages, m.getPage page.tag = none) :
    ∃ m', run copyPage pages m = some m' ∧ ∀ a,
      (∀ page ∈ pages, page.tag = pageTag LogPageSize a → m'.view a = some (page.cell a)) ∧
      ((∀ page ∈ pages, page.tag ≠ pageTag LogPageSize a) → m'.view a = m.view a) := by
  induction pages generalizing m with
  | nil => exact ⟨m, rfl, fun a => ⟨fun page hpage => (by cases hpage), fun _ => rfl⟩⟩
  | cons page pages ih =>
    rw [List.map_cons, List.nodup_cons] at hnodup
    obtain ⟨m₁, hm₁, hsafe₁, hview₁⟩ := copyPage_spec hsafe (hnew page List.mem_cons_self)
    have hother : ∀ other ∈ pages, other.tag ≠ page.tag := fun other hmem heq =>
      hnodup.1 (heq ▸ List.mem_map_of_mem hmem)
    obtain ⟨m', hm', hview⟩ := ih hsafe₁ hnodup.2 fun other hmem => by
      have hview := hview₁ other.tag
      rw [pageTag_tag, if_neg (hother other hmem)] at hview
      rw [view, view, hnew other (List.mem_cons_of_mem _ hmem)] at hview
      exact Option.map_eq_none_iff.mp hview
    refine ⟨m', by rw [run_cons, hm₁, Option.bind_some, hm'], fun a => ⟨?_, ?_⟩⟩
    · intro q hq htag
      cases List.mem_cons.mp hq with
      | inl heq =>
        subst heq
        rw [(hview a).2 fun other hmem => htag ▸ hother other hmem, hview₁, if_pos htag.symm]
      | inr hmem => exact (hview a).1 q hmem htag
    · intro hnone
      rw [(hview a).2 fun other hmem => hnone other (List.mem_cons_of_mem _ hmem), hview₁,
        if_neg fun heq => hnone page List.mem_cons_self heq.symm]

structure SameHeap (heap copy : Heap) : Prop where
  view : copy.memory.view = heap.memory.view
  safe : copy.memory.safe = heap.memory.safe
  heap_break : copy.heap_break = heap.heap_break

lemma cloneMemory_spec (h : Lists pages heap.memory) :
    ∃ copy, cloneMemory pages heap = some copy ∧ SameHeap heap copy := by
  obtain ⟨m, hm, hview⟩ := run_copyPage (m := { safe := false }) rfl h.nodup fun _ _ => rfl
  refine ⟨⟨{ m with safe := heap.memory.safe }, heap.heap_break⟩, by rw [cloneMemory, hm]; rfl, ?_,
    rfl, rfl⟩
  ext1 a
  change m.view a = _
  cases hget : heap.memory.getPage a with
  | some page =>
    obtain ⟨hmem, htag⟩ := (h.page a page).mp hget
    rw [(hview a).1 page hmem htag, view, hget]
    rfl
  | none =>
    have hfree : ∀ page ∈ pages, page.tag ≠ pageTag LogPageSize a := by
      intro page hmem htag
      have hsome := (h.page a page).mpr ⟨hmem, htag⟩
      rw [hget] at hsome
      cases hsome
    rw [(hview a).2 hfree, view, view, hget]
    rfl

end Memories

section Sharing

variable {r r' : Refs}

structure View where
  heap : Heap
  handlers : SignalHandlerTable
  files : FileTable

inductive Change where
  | memory (f : Heap → Heap)
  | handlers (f : SignalHandlerTable → SignalHandlerTable)
  | files (f : FileTable → FileTable)

def Change.apply : Change → View → View
  | memory f, v => { v with heap := f v.heap }
  | handlers f, v => { v with handlers := f v.handlers }
  | files f, v => { v with files := f v.files }

def Objects.sees (o : Objects) (r : Refs) : View where
  heap := o.memories r.memory
  handlers := o.signal_handler_tables r.signal_handler_table
  files := o.file_tables r.file_table

def Objects.change (r : Refs) (c : Change) (o : Objects) : Objects where
  memories := Function.update o.memories r.memory (c.apply (o.sees r)).heap
  signal_handler_tables := Function.update o.signal_handler_tables r.signal_handler_table
    (c.apply (o.sees r)).handlers
  file_tables := Function.update o.file_tables r.file_table (c.apply (o.sees r)).files

def Objects.changes (who : Bool → Refs) (cs : List (Bool × Change)) (o : Objects) : Objects :=
  cs.foldl (fun o c => o.change (who c.1) c.2) o

def Independent (who : Bool → Refs) (o : Objects) : Prop :=
  ∀ cs b, (o.changes who cs).sees (who b) =
    (cs.filter (·.1 = b)).foldl (fun v c => c.2.apply v) (o.sees (who b))

/-- Both see the same after any changes. -/
def Shared (who : Bool → Refs) (o : Objects) : Prop :=
  ∀ cs, (o.changes who cs).sees (who true) = (o.changes who cs).sees (who false)

structure Apart (r r' : Refs) : Prop where
  memory : r.memory ≠ r'.memory
  handlers : r.signal_handler_table ≠ r'.signal_handler_table
  files : r.file_table ≠ r'.file_table

lemma sees_change_self (c : Change) (o : Objects) :
    (o.change r c).sees r = c.apply (o.sees r) := by
  rw [Objects.sees, Objects.change]
  simp only [Function.update_self]

lemma sees_change_of_apart (h : Apart r r') (c : Change) (o : Objects) :
    (o.change r' c).sees r = o.sees r := by
  rw [Objects.sees, Objects.change]
  simp only [Function.update_of_ne h.memory, Function.update_of_ne h.handlers,
    Function.update_of_ne h.files]
  rfl

lemma independent_of_apart {who : Bool → Refs} (h : ∀ b, Apart (who b) (who !b)) (o : Objects) :
    Independent who o := by
  intro cs b
  induction cs generalizing o with
  | nil => rfl
  | cons c cs ih =>
    refine (ih (o.change (who c.1) c.2)).trans ?_
    by_cases hb : c.1 = b
    · subst hb
      rw [List.filter_cons_of_pos (by exact decide_eq_true rfl), List.foldl_cons, sees_change_self]
    · have hother : c.1 = !b := Bool.eq_not_of_ne hb
      rw [List.filter_cons_of_neg (by simpa using hb), hother, sees_change_of_apart (h b)]

end Sharing

section Syscall

variable {R : Type} {s s' : Emulator R} {p : s.Caller} {pages : List Page} {c : ℕ}
  {context : Context R} {o o' : Objects}

def stored (flag : Bool) (address value : Word) (heap : Heap) : Heap :=
  if flag then
    { heap with memory := (heap.memory.Write address (leBytes 4 value.toNat)).state }
  else heap

def pair (r r' : Refs) (b : Bool) : Refs := if b then r else r'

/-- What `clone` makes without `CLONE_VM`: the new context has the registers and a copy of all that
its parent sees, with its number in the memory if that is asked for, and the two are independent. -/
structure Copies (s : Emulator R) (p : s.Caller) (s' : Emulator R) (context : Context R) :
    Prop where
  regs : context.regs =
    { p.context.regs with esp := context.regs.esp, eax := context.regs.eax }
  memory : ∃ copy, SameHeap (s.objects.sees p.context.refs).heap copy ∧
    (s'.objects.sees context.refs).heap =
      stored (hasFlag p.context.regs SIM_CLONE_CHILD_SETTID) p.context.regs.edi
        (BitVec.ofNat 32 s.next) copy
  handlers : (s'.objects.sees context.refs).handlers = (s.objects.sees p.context.refs).handlers
  files : (s'.objects.sees context.refs).files = (s.objects.sees p.context.refs).files
  independent : Independent (pair p.context.refs context.refs) s'.objects

structure Shares (p : s.Caller) (s' : Emulator R) (context : Context R) : Prop where
  regs : context.regs =
    { p.context.regs with esp := context.regs.esp, eax := context.regs.eax }
  shared : Shared (pair p.context.refs context.refs) s'.objects

def ClonesProcess (s : Emulator R) (p : s.Caller) (c : ℕ) (s' : Emulator R) : Prop :=
  ∃ context, s'.contexts c = some context ∧
    if hasFlag p.context.regs SIM_CLONE_VM then Shares p s' context else Copies s p s' context

lemma storeIf_eq {flag : Bool} {m : ℕ} {address value : Word}
    (h : storeIf flag m address value o = .ok o') : o' = { o with
      memories := Function.update o.memories m (stored flag address value (o.memories m)) } := by
  unfold storeIf at h
  unfold stored
  cases flag with
  | false =>
    rw [if_neg Bool.false_ne_true] at h ⊢
    rw [Function.update_eq_self]
    exact (Except.ok.inj h).symm
  | true =>
    rw [if_pos rfl] at h ⊢
    dsimp only at h
    split at h
    · cases h
    · exact (Except.ok.inj h).symm

lemma setTls_eq {segment : Word × Word} (h : setTls context o = .ok (o', segment)) :
    ∃ heap, o' = { o with
      memories := Function.update o.memories context.refs.memory heap } := by
  unfold setTls at h
  split_ifs at h
  · dsimp only at h
    split at h
    · cases h
    · split_ifs at h
      all_goals
        cases hstore : storeIf true context.refs.memory context.regs.esi 6 o with
        | error e =>
          rw [hstore] at h
          cases h
        | ok o₁ =>
          rw [hstore] at h
          cases h
          exact ⟨_, storeIf_eq hstore⟩
  · cases h
    exact ⟨_, by rw [Function.update_eq_self]⟩

lemma clone_cases (h : executeSyscall_clone s p pages = .ok (c, s')) :
    c = s.next ∧ ∃ o o' segment, cloneObjects s p pages = .ok o ∧
      s' = s.add (child s p segment) o' (childRefs_below s p) ∧
      o'.signal_handler_tables = o.signal_handler_tables ∧ o'.file_tables = o.file_tables ∧
      ((childRefs s p).memory ≠ p.context.refs.memory → o'.memories (childRefs s p).memory =
        stored (hasFlag p.context.regs SIM_CLONE_CHILD_SETTID) p.context.regs.edi
          (BitVec.ofNat 32 s.next) (o.memories (childRefs s p).memory)) := by
  unfold executeSyscall_clone at h
  dsimp only at h
  split_ifs at h
  cases hobjects : cloneObjects s p pages with
  | error e => rw [hobjects] at h; cases h
  | ok o =>
    rw [hobjects] at h
    simp only [bind, Except.bind] at h
    split at h
    · cases h
    rename_i o₁ hparent
    split at h
    · cases h
    rename_i o₂ hchild
    split at h
    · cases h
    rename_i result htls
    obtain ⟨o₃, segment⟩ := result
    cases h
    obtain rfl := storeIf_eq hparent
    obtain rfl := storeIf_eq hchild
    obtain ⟨heap, rfl⟩ := setTls_eq htls
    refine ⟨rfl, o, _, segment, rfl, rfl, rfl, rfl, fun hne => ?_⟩
    simp only [Function.update_of_ne hne, Function.update_self]

/-- A call that returns has made the copy it is for, or shares everything, exactly if it shares or
the tables of the caller are those of a new process. -/
theorem clonesProcess_iff (hpages : Lists pages (s.objects.sees p.context.refs).heap.memory)
    (h : executeSyscall_clone s p pages = .ok (c, s')) :
    ClonesProcess s p c s' ↔ hasFlag p.context.regs SIM_CLONE_VM ∨
      ((s.objects.sees p.context.refs).files = FileTable.init ∧
        (s.objects.sees p.context.refs).handlers = fun _ => {}) := by
  obtain ⟨rfl, o, o', segment, hobjects, rfl, hhandlers, hfiles, hmemory⟩ := clone_cases h
  have hfound : (s.add (child s p segment) o' (childRefs_below s p)).contexts s.next =
      some (child s p segment) := Function.update_self ..
  have hregs : (child s p segment).regs = { p.context.regs with
      esp := (child s p segment).regs.esp
      eax := (child s p segment).regs.eax } := rfl
  unfold ClonesProcess
  simp only [hfound, Option.some.injEq, exists_eq_left']
  unfold cloneObjects at hobjects
  dsimp only at hobjects
  by_cases hvm : hasFlag p.context.regs SIM_CLONE_VM = true
  · have hrefs : (child s p segment).refs = p.context.refs := if_pos hvm
    rw [if_pos hvm]
    refine iff_of_true ⟨hregs, fun cs => ?_⟩ (.inl hvm)
    rw [hrefs]
    rfl
  · have hrefs : childRefs s p = ⟨s.next, s.next, s.next⟩ := if_neg hvm
    rw [if_neg hvm, or_iff_right hvm]
    rw [if_neg hvm] at hobjects
    split_ifs at hobjects
    obtain ⟨copy, hcopy, hsame⟩ := cloneMemory_spec hpages
    have hcopied : cloneMemory pages (s.objects.memories p.context.refs.memory) = some copy := hcopy
    rw [hcopied] at hobjects
    obtain rfl := Except.ok.inj hobjects
    obtain ⟨-, hltMemory, hltHandlers, hltFiles⟩ := s.allocated p.id p.context p.found
    have hnewHandlers : (o'.sees (childRefs s p)).handlers = fun _ => {} := by
      rw [Objects.sees, hrefs, hhandlers]
      exact Function.update_self ..
    have hnewFiles : (o'.sees (childRefs s p)).files = FileTable.init := by
      rw [Objects.sees, hrefs, hfiles]
      exact Function.update_self ..
    constructor
    · intro hcopies
      exact ⟨hcopies.files.symm.trans hnewFiles, hcopies.handlers.symm.trans hnewHandlers⟩
    · rintro ⟨hinit, hdefault⟩
      have hne : (childRefs s p).memory ≠ p.context.refs.memory := by
        rw [hrefs]
        exact hltMemory.ne'
      refine ⟨hregs, ⟨copy, hsame, ?_⟩, hnewHandlers.trans hdefault.symm,
        hnewFiles.trans hinit.symm, independent_of_apart ?_ _⟩
      · refine (hmemory hne).trans ?_
        rw [hrefs]
        exact congrArg _ (Function.update_self ..)
      · have hrefs' : (child s p segment).refs = ⟨s.next, s.next, s.next⟩ := hrefs
        intro b
        rw [hrefs']
        cases b with
        | false => exact ⟨hltMemory.ne', hltHandlers.ne', hltFiles.ne'⟩
        | true => exact ⟨hltMemory.ne, hltHandlers.ne, hltFiles.ne⟩

end Syscall

def forking : Context Unit where
  regs := ⟨0, 0, 0, 17, 0x9000, 0, 0, 0, 0, 0, 0, 0, 0, 0, 0, 0, 0, ()⟩
  refs := ⟨1, 1, 1⟩
  mmu_space := 1
  loader := 1

def alone (files : FileTable) : Emulator Unit where
  contexts c := if c = 1 then some (forking) else none
  objects := ⟨fun _ => ⟨{}, 0x8000⟩, fun _ _ => {}, fun _ => files⟩
  next := 2
  allocated := by
    intro c context hc
    split_ifs at hc with hone
    obtain rfl := Option.some.inj hc
    subst hone
    exact ⟨Nat.lt_succ_self 1, Nat.lt_succ_self 1, Nat.lt_succ_self 1, Nat.lt_succ_self 1⟩

def caller (files : FileTable) : (alone files).Caller := ⟨1, forking, rfl⟩

lemma lists_empty : Lists [] {} :=
  ⟨List.nodup_nil, fun _ _ => ⟨fun h => (by cases h), fun h => by cases h.1⟩⟩

theorem clonesProcess_initial : ∃ s',
    executeSyscall_clone (alone FileTable.init) (caller FileTable.init) [] = .ok (2, s') ∧
      ClonesProcess (alone FileTable.init) (caller FileTable.init) 2 s' :=
  ⟨_, rfl, (clonesProcess_iff lists_empty rfl).mpr (.inr ⟨rfl, rfl⟩)⟩

def closed : FileTable := ⟨[none, none, none]⟩

/-- The new process has open files that its parent has closed. -/
theorem clonesProcess_closed : ∃ s',
    executeSyscall_clone (alone closed) (caller closed) [] = .ok (2, s') ∧
      ¬ ClonesProcess (alone closed) (caller closed) 2 s' := by
  refine ⟨_, rfl, ?_⟩
  rintro ⟨context, hc, h⟩
  obtain rfl := Option.some.inj hc
  exact absurd h.files (by decide)

end OISA.X86.Fork
