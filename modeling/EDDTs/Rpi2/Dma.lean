import EDDTs.Boards.Resm
import EDDTs.Library.EarlyExit
import EDDTs.Library.Memory

/-!
# The DMA test

`dma_test` allocates three pages, writes a string into the first, describes in the third a
transfer from the first to the second, and starts a channel of the DMA engine with it. The
program sees its pages through virtual addresses, the engine through physical ones.
-/

namespace EDDTs.Rpi2

open Library Boards

/-- `PAGE_SIZE` -/
def pageSize : ℕ := 4096

/-- A page that `valloc` returned: where it lies, and the flags of its entry in the page map. -/
structure Page where
  virt : ℕ
  pfn : ℕ
  flags : ℕ
  pfn_lt : pfn < 2 ^ 20
  flags_lt : flags < 2 ^ 9

/-- The entry of the page in `/proc/self/pagemap`: the frame number in the lower 55 bits. -/
def Page.entry (p : Page) : UInt64 := UInt64.ofNat (p.pfn + 2 ^ 55 * p.flags)

/-- Where the engine finds the page. -/
def Page.base (p : Page) : ℕ := pageSize * p.pfn

/-- The physical address that is computed from an entry; a `size_t` has 32 bits. -/
def physAddr (pageInfo : UInt64) : UInt32 := (pageInfo * 4096).toUInt32

/-- What happens with the page map. -/
inductive Pagemap
  | openFailed
  | short
  | complete
  deriving DecidableEq, Repr

/-- Memory, the registers of the engine by their index in the mapped page, and the reports. -/
structure DmaState where
  mem : Memory
  regs : ℕ → UInt32
  messages : List Message := []

/-- `%p` -/
def pointerText (a : ℕ) : Text := if a = 0 then txt "(nil)" else txt "0x" ++ Nat.toDigits 16 a

/-- `%s` of the string at an address, as far as it lies in its page. -/
def stringText (m : Memory) (a : ℕ) : Text :=
  ((m.load a pageSize).takeWhile (· ≠ 0)).map fun b => Char.ofNat b.toNat

namespace DmaState

/-- `tst_resm` -/
def resm (t : TType) (text : DmaState → Text) : Segment DmaState Message := fun s =>
  ({ s with messages := s.messages ++ [⟨t, text s, false⟩] }, none)

/-- Stores that the program makes into its pages. -/
def modify (f : Memory → Memory) : Segment DmaState Message := fun s =>
  ({ s with mem := f s.mem }, none)

/-- `makeVirtPhysPage`; the address that it returns is `physAddr` of the entry. -/
def makeVirtPhysPage (p : Page) (pagemap : Pagemap) : Segment DmaState Message :=
  (modify fun m => (m.storeWord p.base 1).store p.base (List.replicate pageSize 0)).andThen <|
    match pagemap with
    | .openFailed => fun s => (s, some ⟨.conf, txt "Failed to open /proc/self/pagemap\n", false⟩)
    | .short => fun s => (s, some ⟨.conf, txt "Pagemap read failed\n", false⟩)
    | .complete => resm .info fun _ => txt "makeVirtPhysPage virtual to phys: " ++
        pointerText p.virt ++ txt " -> " ++ pointerText (physAddr p.entry).toNat ++ txt "\n"

/-- The engine makes the transfer that a control block describes. -/
def transfer (m : Memory) (conblk : ℕ) : Memory :=
  m.store (m.word (conblk + 8)).toNat
    (m.load (m.word (conblk + 4)).toNat (m.word (conblk + 12)).toNat)

/-- A write to a register. The first register of a channel starts it when the bit
`DMA_CS_ACTIVE` is written; an engine that `copies` then makes the transfer. -/
def writeRegister (copies : Bool) (index : ℕ) (value : UInt32) : Segment DmaState Message :=
  fun s =>
    ({ s with
        regs := Function.update s.regs index value
        mem := if index % 64 = 0 ∧ value &&& 1 ≠ 0 ∧ copies = true then
            transfer s.mem (s.regs (index + 1)).toNat
          else s.mem }, none)

/-- `writeBitmasked` -/
def writeBitmasked (copies : Bool) (index : ℕ) (mask value : UInt32) : Segment DmaState Message :=
  fun s =>
    let new := (s.regs index &&& ~~~mask) ||| (value &&& mask)
    ((writeRegister copies index new).andThen (writeRegister copies index new)) s

end DmaState

/-- The string that is copied. -/
def helloWorld : List UInt8 := (txt "hello world").map fun c => UInt8.ofNat c.toNat

/-- `DMA_CS_RESET` -/
def dmaCsReset : UInt32 := (1 : UInt32) <<< 31

/-- `DMA_CS_ACTIVE` -/
def dmaCsActive : UInt32 := (1 : UInt32) <<< 0

/-- The three error flags of `DEBUG`. -/
def dmaDebugErrors : UInt32 := (1 : UInt32) <<< 2 ||| (1 : UInt32) <<< 1 ||| (1 : UInt32) <<< 0

/-- `DMA_CB_TI_SRC_INC | DMA_CB_TI_DEST_INC` -/
def dmaCbTi : UInt32 := (1 : UInt32) <<< 8 ||| (1 : UInt32) <<< 4

/-- `DMAENABLE / 4` -/
def dmaEnable : ℕ := 0xff0 / 4

/-- `DMACH(n) / 4` -/
def dmaChannel (n : ℕ) : ℕ := 0x100 * n / 4

/-- The control block that is filled in. -/
def fillControlBlock (src dest cb : Page) (m : Memory) : Memory :=
  let m := m.storeWord cb.base dmaCbTi
  let m := m.storeWord (cb.base + 4) (physAddr src.entry)
  let m := m.storeWord (cb.base + 8) (physAddr dest.entry)
  let m := m.storeWord (cb.base + 12) 12
  let m := m.storeWord (cb.base + 16) 0
  m.storeWord (cb.base + 20) 0

open DmaState Segment in
/-- The first half of `main`, after the device was mapped: the three pages. -/
def preparePages (src dest cb : Page) (pagemap : Fin 3 → Pagemap) : Segment DmaState Message :=
  (resm .info fun _ => txt "DMA Memory Copy Tests!").andThen <|
    (makeVirtPhysPage src (pagemap 0)).andThen <|
      (makeVirtPhysPage dest (pagemap 1)).andThen <|
        (modify fun m => m.store src.base (helloWorld ++ [0])).andThen <|
          (makeVirtPhysPage cb (pagemap 2)).andThen <|
            (modify (fillControlBlock src dest cb)).andThen <|
              resm .info fun s => txt "Initial Destination Read " ++ stringText s.mem dest.base ++
                txt "\n"

open DmaState Segment in
/-- The registers that are written to start the channel `n`. -/
def startChannel (cb : Page) (n : ℕ) (copies : Bool) : Segment DmaState Message :=
  (writeBitmasked copies dmaEnable ((1 : UInt32) <<< UInt32.ofNat n)
      ((1 : UInt32) <<< UInt32.ofNat n)).andThen <|
    (writeRegister copies (dmaChannel n) dmaCsReset).andThen <|
      (writeRegister copies (dmaChannel n + 8) dmaDebugErrors).andThen <|
        (writeRegister copies (dmaChannel n + 1) (physAddr cb.entry)).andThen <|
          writeRegister copies (dmaChannel n) dmaCsActive

open DmaState Segment in
/-- The last part of `main`. -/
def judge (dest : Page) : Segment DmaState Message :=
  (resm .info fun s => txt "Now Destination Reads " ++ stringText s.mem dest.base ++
      txt "\n").andThen <|
    Segment.andThen (fun s =>
      if s.mem.strcmpEq dest.base helloWorld = true then
        resm .fail (fun _ => txt "DMA TEST Failed") s
      else resm .pass (fun _ => txt "DMA TEST Passed") s) <|
      resm .info fun _ => txt "DMA Tests Done!"

/-- `main` of `dma_test`, on a channel whose registers lie in the mapped page. -/
def dmaMain (src dest cb : Page) (pagemap : Fin 3 → Pagemap) (n : Fin 16) (copies : Bool) :
    Segment DmaState Message :=
  (preparePages src dest cb pagemap).andThen <|
    (startChannel cb n copies).andThen (judge dest)

/-! ### Addresses -/

/-- The flags are shifted out of the address. -/
theorem toNat_physAddr (p : Page) : (physAddr p.entry).toNat = p.base := by
  have hpfn := p.pfn_lt
  rw [physAddr, Page.entry, UInt64.toNat_toUInt32, UInt64.toNat_mul, UInt64.toNat_ofNat',
    show (4096 : UInt64).toNat = 4096 by rfl, Page.base, pageSize]
  omega

/-- What lies in the pages at two different frames does not overlap. -/
theorem base_apart {p q : Page} (h : p.pfn ≠ q.pfn) {m n : ℕ} (hm : m ≤ pageSize)
    (hn : n ≤ pageSize) : p.base + m ≤ q.base ∨ q.base + n ≤ p.base := by
  simp only [Page.base, pageSize] at hm hn ⊢
  omega

/-! ### The pages -/

section Pages

open DmaState Segment

variable (src dest cb : Page)

/-- The page is cleared. -/
def cleared (p : Page) (m : Memory) : Memory :=
  (m.storeWord p.base 1).store p.base (List.replicate pageSize 0)

/-- What the program has stored before it starts the engine. -/
def preparedMemory (m : Memory) : Memory :=
  fillControlBlock src dest cb
    (cleared cb ((cleared dest (cleared src m)).store src.base (helloWorld ++ [0])))

theorem preparePages_eq (s : DmaState) (hs : s.messages = []) :
    ∃ infos, (∀ m ∈ infos, m.ttype = .info) ∧
      preparePages src dest cb (fun _ => .complete) s =
        (⟨preparedMemory src dest cb s.mem, s.regs, infos⟩, none) := by
  obtain ⟨mem, regs, messages⟩ := s
  subst hs
  refine ⟨_, ?_, rfl⟩
  simp

variable {src dest cb}

theorem load_cleared_disjoint {p : Page} {m : Memory} {a n : ℕ}
    (h : a + n ≤ p.base ∨ p.base + pageSize ≤ a) : (cleared p m).load a n = m.load a n := by
  rw [cleared, Memory.load_store_disjoint (by rwa [List.length_replicate]),
    Memory.load_storeWord_disjoint (by simp only [pageSize] at h; omega)]

theorem load_fillControlBlock_disjoint {m : Memory} {a n : ℕ}
    (h : a + n ≤ cb.base ∨ cb.base + pageSize ≤ a) :
    (fillControlBlock src dest cb m).load a n = m.load a n := by
  simp only [pageSize] at h
  simp only [fillControlBlock]
  iterate 6 rw [Memory.load_storeWord_disjoint (by omega)]

/-- The source page holds the string. -/
theorem load_preparedMemory_src (hcb : src.pfn ≠ cb.pfn) (m : Memory) :
    (preparedMemory src dest cb m).load src.base 12 = helloWorld ++ [0] := by
  have hroom : src.base + 12 ≤ cb.base ∨ cb.base + pageSize ≤ src.base :=
    base_apart hcb (by decide) (Nat.le_refl _)
  rw [preparedMemory, load_fillControlBlock_disjoint hroom, load_cleared_disjoint hroom,
    Memory.load_store (by decide)]
  rfl

/-- The destination page is empty. -/
theorem load_preparedMemory_dest (hcb : dest.pfn ≠ cb.pfn) (hsrc : dest.pfn ≠ src.pfn)
    (m : Memory) : (preparedMemory src dest cb m).load dest.base 12 = List.replicate 12 0 := by
  have hroom : dest.base + 12 ≤ cb.base ∨ cb.base + pageSize ≤ dest.base :=
    base_apart hcb (by decide) (Nat.le_refl _)
  have hroom' : dest.base + 12 ≤ src.base ∨
      src.base + (helloWorld ++ [0]).length ≤ dest.base :=
    base_apart hsrc (by decide) (by decide)
  rw [preparedMemory, load_fillControlBlock_disjoint hroom, load_cleared_disjoint hroom,
    Memory.load_store_disjoint hroom', cleared,
    Memory.load_store (by rw [List.length_replicate]; decide), List.take_replicate]
  rfl

/-- The control block describes the copy of the string. -/
structure Describes (m : Memory) (conblk : ℕ) (src dest : Page) : Prop where
  ti : m.word conblk = dmaCbTi
  sourceAd : (m.word (conblk + 4)).toNat = src.base
  destAd : (m.word (conblk + 8)).toNat = dest.base
  txfrLen : m.word (conblk + 12) = 12
  stride : m.word (conblk + 16) = 0
  nextconbk : m.word (conblk + 20) = 0

theorem describes_fillControlBlock (m : Memory) :
    Describes (fillControlBlock src dest cb m) cb.base src dest := by
  constructor
  all_goals
    simp only [fillControlBlock]
    repeat rw [Memory.word_storeWord_disjoint (by omega)]
    rw [Memory.word_storeWord_same]
  · exact toNat_physAddr src
  · exact toNat_physAddr dest

end Pages

/-! ### The engine -/

section Engine

open DmaState Segment

variable {src dest cb : Page} {copies : Bool}

theorem writeRegister_quiet {index : ℕ} {value : UInt32} (h : index % 64 ≠ 0 ∨ value &&& 1 = 0)
    (s : DmaState) :
    writeRegister copies index value s =
      (⟨s.mem, Function.update s.regs index value, s.messages⟩, none) := by
  have hno : ¬ (index % 64 = 0 ∧ value &&& 1 ≠ 0 ∧ copies = true) := by
    rintro ⟨hindex, hvalue, -⟩
    rcases h with h | h
    · exact h hindex
    · exact hvalue h
  rw [writeRegister, if_neg hno]

theorem dmaChannel_eq (n : ℕ) : dmaChannel n = 64 * n := by
  unfold dmaChannel
  omega

theorem writeBitmasked_quiet (copies : Bool) (mask value : UInt32) (s : DmaState) :
    ∃ regs, writeBitmasked copies dmaEnable mask value s = (⟨s.mem, regs, s.messages⟩, none) := by
  have hquiet : dmaEnable % 64 ≠ 0 := by decide
  have htwice : ∀ new, ((writeRegister copies dmaEnable new).andThen
      (writeRegister copies dmaEnable new)) s = (⟨s.mem, Function.update
        (Function.update s.regs dmaEnable new) dmaEnable new, s.messages⟩, none) := by
    intro new
    rw [andThen_of_goesOn (writeRegister_quiet (Or.inl hquiet) s),
      writeRegister_quiet (Or.inl hquiet)]
  exact ⟨_, htwice _⟩

/-- Starting the channel makes the engine read the control block of the program. -/
theorem startChannel_eq (cb : Page) (n : ℕ) (copies : Bool) (s : DmaState) :
    ∃ regs, regs (dmaChannel n + 1) = physAddr cb.entry ∧
      startChannel cb n copies s =
        (⟨if copies = true then transfer s.mem cb.base else s.mem, regs, s.messages⟩, none) := by
  have hchannel := dmaChannel_eq n
  have hactive : dmaChannel n % 64 = 0 ∧ dmaCsActive &&& 1 ≠ 0 := ⟨by omega, by decide⟩
  obtain ⟨regs, henable⟩ := writeBitmasked_quiet copies
    ((1 : UInt32) <<< UInt32.ofNat n) ((1 : UInt32) <<< UInt32.ofNat n) s
  set pointed := Function.update (Function.update (Function.update regs (dmaChannel n) dmaCsReset)
    (dmaChannel n + 8) dmaDebugErrors) (dmaChannel n + 1) (physAddr cb.entry) with hpointed
  refine ⟨Function.update pointed (dmaChannel n) dmaCsActive, ?_, ?_⟩
  · rw [Function.update_of_ne (by omega), hpointed, Function.update_self]
  · rw [startChannel, andThen_of_goesOn henable,
      andThen_of_goesOn (writeRegister_quiet (Or.inr (by decide)) _),
      andThen_of_goesOn (writeRegister_quiet (Or.inl (by omega)) _),
      andThen_of_goesOn (writeRegister_quiet (Or.inl (by omega)) _), writeRegister]
    simp only [hactive, ne_eq, not_false_eq_true, true_and, Function.update_self, toNat_physAddr]
    rfl

/-- The transfer that the program describes copies the string. -/
theorem transfer_described {m : Memory} (h : Describes m cb.base src dest) :
    transfer m cb.base = m.store dest.base (m.load src.base 12) := by
  rw [transfer, h.destAd, h.sourceAd, h.txfrLen]
  rfl

end Engine

/-! ### The verdict -/

section Verdict

open DmaState Segment

variable {src dest cb : Page}

/-- The destination page holds the string. -/
def HoldsString (m : Memory) (dest : Page) : Prop := m.load dest.base 12 = helloWorld ++ [0]

instance (m : Memory) (dest : Page) : Decidable (HoldsString m dest) :=
  inferInstanceAs (Decidable (_ = _))

/-- The test passes. -/
def DmaState.Passes (s : DmaState) : Prop := ∃ m ∈ s.messages, m.ttype = .pass

instance (s : DmaState) : Decidable s.Passes :=
  inferInstanceAs (Decidable (∃ m ∈ s.messages, m.ttype = .pass))

/-- The end of the test leaves memory and registers, and passes a page without the string. -/
theorem judge_reports (dest : Page) (mem : Memory) (regs : ℕ → UInt32) {infos : List Message}
    (hinfos : ∀ m ∈ infos, m.ttype = .info) :
    (judge dest ⟨mem, regs, infos⟩).1.mem = mem ∧ (judge dest ⟨mem, regs, infos⟩).1.regs = regs ∧
      ((judge dest ⟨mem, regs, infos⟩).1.Passes ↔ ¬ HoldsString mem dest) := by
  have hpass : ¬ ∃ m ∈ infos, m.ttype = .pass := by
    rintro ⟨m, hm, htype⟩
    rw [hinfos m hm] at htype
    cases htype
  have hholds : HoldsString mem dest ↔ mem.strcmpEq dest.base helloWorld = true :=
    (Memory.strcmpEq_iff mem dest.base helloWorld).symm
  rw [hholds]
  by_cases hcmp : mem.strcmpEq dest.base helloWorld = true
  · simp [judge, Segment.andThen, resm, Passes, hcmp, or_and_right, exists_or, hpass]
  · simp [judge, Segment.andThen, resm, Passes, hcmp, or_and_right, exists_or]

/-- The destination holds the string when the engine has copied, and only then. -/
theorem holdsString_engine (hsrc : dest.pfn ≠ src.pfn) (hscb : src.pfn ≠ cb.pfn)
    (hdcb : dest.pfn ≠ cb.pfn) (copies : Bool) (m : Memory) :
    HoldsString (if copies = true then transfer (preparedMemory src dest cb m) cb.base
      else preparedMemory src dest cb m) dest ↔ copies = true := by
  cases copies with
  | true =>
      have hdescribes : Describes (preparedMemory src dest cb m) cb.base src dest :=
        describes_fillControlBlock _
      rw [if_pos rfl, transfer_described hdescribes, load_preparedMemory_src hscb, HoldsString,
        Memory.load_store (Nat.le_refl 12)]
      exact iff_of_true rfl rfl
  | false =>
      rw [if_neg Bool.false_ne_true, HoldsString, load_preparedMemory_dest hdcb hsrc]
      exact iff_of_false (by decide) Bool.false_ne_true

/-- The transfer does not touch the control block. -/
theorem describes_engine (hdcb : dest.pfn ≠ cb.pfn) (copies : Bool) (m : Memory) :
    Describes (if copies = true then transfer (preparedMemory src dest cb m) cb.base
      else preparedMemory src dest cb m) cb.base src dest := by
  have hdescribes : Describes (preparedMemory src dest cb m) cb.base src dest :=
    describes_fillControlBlock _
  cases copies with
  | true =>
      rw [if_pos rfl, transfer_described hdescribes]
      have hword : ∀ k ≤ 20, ((preparedMemory src dest cb m).store dest.base
          ((preparedMemory src dest cb m).load src.base 12)).word (cb.base + k) =
            (preparedMemory src dest cb m).word (cb.base + k) := by
        intro k hk
        have hapart : dest.base + 12 ≤ cb.base ∨ cb.base + 24 ≤ dest.base :=
          base_apart hdcb (by decide) (by decide)
        apply Memory.word_store_disjoint
        rw [Memory.length_load]
        omega
      exact ⟨(hword 0 (by omega)).trans hdescribes.ti,
        (congrArg _ (hword 4 (by omega))).trans hdescribes.sourceAd,
        (congrArg _ (hword 8 (by omega))).trans hdescribes.destAd,
        (hword 12 (by omega)).trans hdescribes.txfrLen,
        (hword 16 (by omega)).trans hdescribes.stride,
        (hword 20 (by omega)).trans hdescribes.nextconbk⟩
  | false => rwa [if_neg Bool.false_ne_true]

/-- On three pages of their own the engine is pointed at the control block that describes the
copy, and the test passes exactly when the string did not arrive. -/
theorem dmaMain_passes_iff (src dest cb : Page) (hsrc : dest.pfn ≠ src.pfn)
    (hscb : src.pfn ≠ cb.pfn) (hdcb : dest.pfn ≠ cb.pfn) (n : Fin 16) (copies : Bool)
    (mem : Memory) (regs : ℕ → UInt32) :
    let s := (dmaMain src dest cb (fun _ => .complete) n copies ⟨mem, regs, []⟩).1
    (s.regs (dmaChannel n + 1)).toNat = cb.base ∧ Describes s.mem cb.base src dest ∧
      (HoldsString s.mem dest ↔ copies = true) ∧ (s.Passes ↔ ¬ HoldsString s.mem dest) := by
  obtain ⟨infos, hinfos, hprepare⟩ := preparePages_eq src dest cb ⟨mem, regs, []⟩ rfl
  obtain ⟨regs', hpointed, hstart⟩ := startChannel_eq cb n copies
    ⟨preparedMemory src dest cb mem, regs, infos⟩
  intro s
  have hrun : s = (judge dest ⟨if copies = true then
      transfer (preparedMemory src dest cb mem) cb.base else preparedMemory src dest cb mem,
      regs', infos⟩).1 :=
    congrArg Prod.fst ((andThen_of_goesOn hprepare).trans (andThen_of_goesOn hstart))
  obtain ⟨hmem, hregs, hpasses⟩ := judge_reports dest _ regs' hinfos
  rw [hrun, hmem, hregs, hpointed, toNat_physAddr]
  exact ⟨rfl, describes_engine hdcb copies mem,
    holdsString_engine hsrc hscb hdcb copies mem, hpasses⟩

/-- The page at a frame, without flags. -/
def pageAt (pfn : ℕ) (h : pfn < 2 ^ 20) : Page := ⟨pageSize * pfn, pfn, 0, h, by decide⟩

theorem dmaMain_passes_iff_three :
    let src := pageAt 1 (by decide)
    let dest := pageAt 2 (by decide)
    let cb := pageAt 3 (by decide)
    let s := (dmaMain src dest cb (fun _ => .complete) 5 false ⟨fun _ => 0, fun _ => 0, []⟩).1
    (s.regs (dmaChannel 5 + 1)).toNat = cb.base ∧ Describes s.mem cb.base src dest ∧
      (HoldsString s.mem dest ↔ false = true) ∧ (s.Passes ↔ ¬ HoldsString s.mem dest) :=
  dmaMain_passes_iff _ _ _ (by decide) (by decide) (by decide) 5 false _ _

/-- The engine copies the string, and the test fails. -/
theorem dmaMain_copied :
    let dest := pageAt 2 (by decide)
    let s := (dmaMain (pageAt 1 (by decide)) dest (pageAt 3 (by decide)) (fun _ => .complete) 5
      true ⟨fun _ => 0, fun _ => 0, []⟩).1
    HoldsString s.mem dest ∧ ¬ s.Passes := by
  decide +kernel

end Verdict

end EDDTs.Rpi2
