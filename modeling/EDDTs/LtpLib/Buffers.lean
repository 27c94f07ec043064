import EDDTs.Boards.Resm
import EDDTs.Library.Memory
import EDDTs.LtpLib.RandomRange

/-!
# Guarded buffers

`tst_alloc` and `tst_free_all` (`lib/tst_buffers.c`). A buffer lies at the end of its mapping, in
front of a page that cannot be accessed; what is left in front of the buffer is filled with
random bytes that read the same in both directions, and checked before the mapping is removed.
-/

namespace EDDTs.LtpLib

open Library
open Boards (Message)

/-- What `tst_alloc` depends on: the width of `size_t`, and `getpagesize`, an `int`. -/
structure BufferTarget where
  model : DataModel
  pageSize : ℕ
  pageSize_pos : 0 < pageSize
  pageSize_int : pageSize < 2 ^ 31

/-- `struct map`, with three things that the code does not keep: the size that was asked for,
the page given to `mprotect`, and the bytes in front of the buffer as they were set up. -/
structure GuardMap where
  addr : ℕ
  size : ℕ
  bufShift : ℕ
  asked : ℕ
  guard : ℕ
  canary : List UInt8
  deriving DecidableEq

/-- Where the buffer begins. -/
def GuardMap.buffer (map : GuardMap) : ℕ := map.addr + map.bufShift

structure BufferState where
  mem : Memory
  maps : List GuardMap := []
  printMsg : Bool := true
  messages : List Message := []

namespace BufferTarget

variable (t : BufferTarget)

/-- The number of pages of a mapping, as a number. -/
def exactPages (size : ℕ) : ℕ :=
  size / t.pageSize + (if size % t.pageSize ≠ 0 then 1 else 0) + 1

/-- The `unsigned int pages`; its initialiser is a `size_t`. -/
def pages (size : ℕ) : ℕ := t.exactPages size % 2 ^ t.model.longBits % 2 ^ 32

/-- The length of the mapping, a `size_t`. -/
def mapSize (size : ℕ) : ℕ := t.pageSize * t.pages size % 2 ^ t.model.longBits

/-- The offset of the page that is made inaccessible; `pages - 1` is an `unsigned int`. -/
def guardOffset (size : ℕ) : ℕ :=
  (t.pages size + 2 ^ 32 - 1) % 2 ^ 32 * t.pageSize % 2 ^ t.model.longBits

/-- `buf_shift` -/
def bufShift (size : ℕ) : ℕ :=
  if size % t.pageSize ≠ 0 then t.pageSize - size % t.pageSize else 0

end BufferTarget

/-- One pass of the loop of `setup_canary`. -/
def setByte (addr shift : ℕ) (random : ℕ → UInt8) (mem : Memory) (i : ℕ) : Memory :=
  Function.update (Function.update mem (addr + (shift - i - 1)) (random i)) (addr + i) (random i)

/-- `setup_canary`, with the bytes that `random` gives. -/
def setupCanary (addr shift : ℕ) (random : ℕ → UInt8) (mem : Memory) : Memory :=
  (List.range (shift / 2)).foldl (setByte addr shift random) mem

/-- A new mapping is filled with zeros. -/
def mapZeroed (addr size : ℕ) (mem : Memory) : Memory := fun a =>
  if addr ≤ a ∧ a < addr + size then 0 else mem a

/-- The mapping that `tst_alloc` puts into its list, with the canary as it is in memory. -/
def newMap (t : BufferTarget) (size addr : ℕ) (mem : Memory) : GuardMap where
  addr
  size := t.mapSize size
  bufShift := t.bufShift size
  asked := size
  guard := addr + t.guardOffset size
  canary := mem.load addr (t.bufShift size)

/-- `tst_alloc`, when `mmap` answers with `addr`: the buffer and the new state. -/
def tstAlloc (t : BufferTarget) (size addr : ℕ) (random : ℕ → UInt8) (s : BufferState) :
    ℕ × BufferState :=
  let mem := setupCanary addr (t.bufShift size) random (mapZeroed addr (t.mapSize size) s.mem)
  (addr + t.bufShift size,
    { mem
      maps := newMap t size addr mem :: s.maps
      printMsg := false
      messages :=
        if s.printMsg then s.messages ++ [⟨.info, txt "Test is using guarded buffers", false⟩]
        else s.messages })

/-- A warning of `check_canary`: the mapping and the index of the pair that differs. -/
structure CanaryWarning where
  map : GuardMap
  index : ℕ
  deriving DecidableEq

/-- The text of a warning; the index is printed as a signed number. -/
def CanaryWarning.message (w : CanaryWarning) (pid : ℤ) : Message :=
  ⟨.warn, txt "pid " ++ intText pid ++ txt ": buffer modified address 0x" ++
    Nat.toDigits 16 w.map.buffer ++ txt "[" ++ intText (-w.index - 1) ++ txt "]", false⟩

/-- `check_canary` -/
def checkCanary (mem : Memory) (map : GuardMap) : List CanaryWarning :=
  ((List.range (map.bufShift / 2)).filter fun i =>
    mem (map.addr + (map.bufShift - i - 1)) ≠ mem (map.addr + i)).map fun i => ⟨map, i⟩

/-- `tst_free_all`: the warnings, and the state without the mappings. -/
def tstFreeAll (pid : ℤ) (s : BufferState) : List CanaryWarning × BufferState :=
  let warnings := s.maps.flatMap (checkCanary s.mem)
  (warnings, { s with maps := [], messages := s.messages ++ warnings.map (·.message pid) })

/-- An address of the bytes in front of a buffer. -/
def GuardMap.InGap (map : GuardMap) (a : ℕ) : Prop := map.addr ≤ a ∧ a < map.buffer

/-- Two stretches of addresses have none in common. -/
def Apart (addr size addr' size' : ℕ) : Prop := addr + size ≤ addr' ∨ addr' + size' ≤ addr

instance : Std.Symm fun map map' : GuardMap => Apart map.addr map.size map'.addr map'.size :=
  ⟨fun _ _ => Or.symm⟩

/-- What `mmap` promises of its answer: a mapping that is not empty and apart from the others. -/
structure Mapped (t : BufferTarget) (size addr : ℕ) (s : BufferState) : Prop where
  nonempty : 0 < t.mapSize size
  apart : ∀ map ∈ s.maps, Apart addr (t.mapSize size) map.addr map.size

/-- The canary lies in the mapping and not in the inaccessible page, so that `setup_canary`
returns. -/
def Accessible (t : BufferTarget) (size : ℕ) : Prop :=
  2 ≤ t.bufShift size →
    t.bufShift size ≤ t.mapSize size ∧
      Apart 0 (t.bufShift size) (t.guardOffset size) t.pageSize

/-- The runs of a test that changes at most one byte in front of its buffers, at `x`. What it
stores elsewhere, buffers included, is free. -/
inductive BufferRun (t : BufferTarget) (x : ℕ) : BufferState → Prop
  | start (mem : Memory) : BufferRun t x { mem }
  | alloc {s : BufferState} (size addr : ℕ) (random : ℕ → UInt8) (h : BufferRun t x s)
      (hsize : size < 2 ^ t.model.longBits) (hmapped : Mapped t size addr s)
      (haccess : Accessible t size) : BufferRun t x (tstAlloc t size addr random s).2
  | store {s : BufferState} (a : ℕ) (b : UInt8) (h : BufferRun t x s)
      (hgap : a = x ∨ (∀ map ∈ s.maps, ¬ map.InGap a) ∨ s.mem a = b) :
      BufferRun t x { s with mem := Function.update s.mem a b }

/-! ### Where the buffer ends -/

section Placement

variable (t : BufferTarget) {size : ℕ}

/-- The gap, what was asked for and the last page make up the exact pages. -/
theorem bufShift_add_size (size : ℕ) :
    t.bufShift size + size + t.pageSize = t.exactPages size * t.pageSize := by
  have hdiv := Nat.div_add_mod size t.pageSize
  have hlt := Nat.mod_lt size t.pageSize_pos
  rw [Nat.mul_comm] at hdiv
  unfold BufferTarget.bufShift BufferTarget.exactPages
  split_ifs with hrest
  · rw [Nat.add_mul, Nat.add_mul]
    omega
  · rw [Nat.add_mul, Nat.add_mul]
    omega

/-- The buffer ends where the last page of its mapping begins, and this page was made
inaccessible. -/
def EndsAtGuard (map : GuardMap) : Prop :=
  map.buffer + map.asked = map.guard ∧ map.guard + t.pageSize = map.addr + map.size

/-- The pages are counted in an `unsigned int`, and their bytes in a `size_t`. -/
def PagesFit (size : ℕ) : Prop :=
  t.exactPages size < 2 ^ 32 ∧ t.exactPages size * t.pageSize < 2 ^ t.model.longBits

instance (size : ℕ) : Decidable (PagesFit t size) := inferInstanceAs (Decidable (_ ∧ _))

theorem pages_of_fit (h : PagesFit t size) : t.pages size = t.exactPages size := by
  have hle : t.exactPages size ≤ t.exactPages size * t.pageSize :=
    Nat.le_mul_of_pos_right _ t.pageSize_pos
  have hword : t.exactPages size % 2 ^ t.model.longBits = t.exactPages size :=
    Nat.mod_eq_of_lt (Nat.lt_of_le_of_lt hle h.2)
  rw [BufferTarget.pages, hword, Nat.mod_eq_of_lt h.1]

/-- A mapping as `tst_alloc` makes it. -/
structure MadeBy (map : GuardMap) : Prop where
  size_eq : map.size = t.mapSize map.asked
  shift_eq : map.bufShift = t.bufShift map.asked
  guard_eq : map.guard = map.addr + t.guardOffset map.asked

variable {t}

theorem endsAtGuard_iff {map : GuardMap} (h : MadeBy t map) :
    EndsAtGuard t map ↔ PagesFit t map.asked := by
  have hsum := bufShift_add_size t map.asked
  unfold EndsAtGuard GuardMap.buffer
  rw [h.size_eq, h.shift_eq, h.guard_eq]
  constructor
  · rintro ⟨hend, hlast⟩
    have hsize : t.exactPages map.asked * t.pageSize = t.mapSize map.asked := by omega
    have hlt : t.mapSize map.asked < 2 ^ t.model.longBits := Nat.mod_lt _ (Nat.two_pow_pos _)
    have hle : t.mapSize map.asked ≤ t.pageSize * t.pages map.asked := Nat.mod_le _ _
    have hpages : t.exactPages map.asked ≤ t.pages map.asked := by
      rw [Nat.mul_comm t.pageSize] at hle
      exact Nat.le_of_mul_le_mul_right (hsize.le.trans hle) t.pageSize_pos
    have hint : t.pages map.asked < 2 ^ 32 := Nat.mod_lt _ (Nat.two_pow_pos _)
    exact ⟨by omega, by omega⟩
  · intro hfit
    have hpages := pages_of_fit t hfit
    obtain ⟨hint, hbytes⟩ := hfit
    have hpos : 1 ≤ t.exactPages map.asked := Nat.le_add_left 1 _
    have hsize : t.mapSize map.asked = t.exactPages map.asked * t.pageSize := by
      rw [BufferTarget.mapSize, hpages, Nat.mul_comm, Nat.mod_eq_of_lt hbytes]
    have hless : (t.exactPages map.asked - 1) * t.pageSize + t.pageSize =
        t.exactPages map.asked * t.pageSize := by
      rw [← Nat.succ_mul, Nat.succ_eq_add_one, Nat.sub_add_cancel hpos]
    have hguard : t.guardOffset map.asked = (t.exactPages map.asked - 1) * t.pageSize := by
      have hminus :
          (t.exactPages map.asked + 2 ^ 32 - 1) % 2 ^ 32 = t.exactPages map.asked - 1 := by omega
      rw [BufferTarget.guardOffset, hpages, hminus, Nat.mod_eq_of_lt (by omega)]
    rw [hsize, hguard]
    omega

end Placement

/-! ### The canary -/

section Canary

variable {addr shift : ℕ} {random : ℕ → UInt8} {mem : Memory}

/-- The passes of `setup_canary` up to the `n`-th. -/
theorem setByte_range (random : ℕ → UInt8) (mem : Memory) {n : ℕ} (hn : n ≤ shift / 2) :
    let mem' := (List.range n).foldl (setByte addr shift random) mem
    (∀ i < n, mem' (addr + i) = random i ∧ mem' (addr + (shift - i - 1)) = random i) ∧
      ∀ a, (a < addr ∨ addr + shift ≤ a) → mem' a = mem a := by
  induction n with
  | zero => exact ⟨fun i hi => absurd hi (Nat.not_lt_zero i), fun a _ => rfl⟩
  | succ n ih =>
      obtain ⟨hset, hout⟩ := ih (by omega)
      rw [List.range_succ, List.foldl_append, List.foldl_cons, List.foldl_nil]
      generalize (List.range n).foldl (setByte addr shift random) mem = mem' at hset hout
      constructor
      · intro i hi
        by_cases hlast : i = n
        · subst hlast
          constructor
          · simp [setByte]
          · rw [setByte, Function.update_of_ne (by omega), Function.update_self]
        · obtain ⟨hlow, hhigh⟩ := hset i (by omega)
          constructor
          · rw [setByte, Function.update_of_ne (by omega), Function.update_of_ne (by omega), hlow]
          · rw [setByte, Function.update_of_ne (by omega), Function.update_of_ne (by omega), hhigh]
      · intro a ha
        rw [setByte, Function.update_of_ne (by omega), Function.update_of_ne (by omega), hout a ha]

theorem setupCanary_mirrored {i : ℕ} (hi : i < shift / 2) :
    setupCanary addr shift random mem (addr + (shift - i - 1)) =
      setupCanary addr shift random mem (addr + i) := by
  obtain ⟨hlow, hhigh⟩ := (setByte_range random mem le_rfl).1 i hi
  exact hhigh.trans hlow.symm

theorem setupCanary_outside {a : ℕ} (h : a < addr ∨ addr + shift ≤ a) :
    setupCanary addr shift random mem a = mem a :=
  (setByte_range random mem le_rfl).2 a h

end Canary

/-! ### Runs -/

/-- What holds of every mapping: it is as it was made, the gap is part of it and was set up
to read the same in both directions. -/
structure WellMade (t : BufferTarget) (map : GuardMap) : Prop where
  made : MadeBy t map
  inside : map.bufShift ≤ map.size
  mirrored : ∀ i < map.bufShift / 2, map.canary[map.bufShift - i - 1]? = map.canary[i]?

/-- The bytes of a gap are those that were set up, but for the one at `x`. -/
def Intact (x : ℕ) (mem : Memory) (map : GuardMap) : Prop :=
  ∀ o < map.bufShift, map.addr + o ≠ x → map.canary[o]? = some (mem (map.addr + o))

/-- The invariant of the runs. -/
structure BufferInv (t : BufferTarget) (x : ℕ) (s : BufferState) : Prop where
  wellMade : ∀ map ∈ s.maps, WellMade t map
  intact : ∀ map ∈ s.maps, Intact x s.mem map
  apart : s.maps.Pairwise fun map map' => Apart map.addr map.size map'.addr map'.size

section Runs

variable {t : BufferTarget} {x : ℕ} {s : BufferState}

/-- The gap is part of the mapping. -/
theorem bufShift_le_mapSize {size addr : ℕ} (hmapped : Mapped t size addr s)
    (haccess : Accessible t size) : t.bufShift size ≤ t.mapSize size := by
  by_cases hshift : 2 ≤ t.bufShift size
  · exact (haccess hshift).1
  · have hpos := hmapped.nonempty
    omega

variable {map : GuardMap} {mem : Memory}

/-- A new mapping does not touch the gaps of the others. -/
theorem tstAlloc_elsewhere {size addr : ℕ} (random : ℕ → UInt8) (hmapped : Mapped t size addr s)
    (haccess : Accessible t size) (hmap : map ∈ s.maps) (hinside : map.bufShift ≤ map.size) {o : ℕ}
    (ho : o < map.bufShift) :
    (tstAlloc t size addr random s).2.mem (map.addr + o) = s.mem (map.addr + o) := by
  have hshift := bufShift_le_mapSize hmapped haccess
  have hout : ¬ (addr ≤ map.addr + o ∧ map.addr + o < addr + t.mapSize size) := by
    rcases hmapped.apart map hmap with h | h
    · omega
    · omega
  refine (setupCanary_outside (by omega)).trans ?_
  rw [mapZeroed, if_neg hout]

theorem BufferInv.alloc {size addr : ℕ} (random : ℕ → UInt8) (h : BufferInv t x s)
    (hmapped : Mapped t size addr s) (haccess : Accessible t size) :
    BufferInv t x (tstAlloc t size addr random s).2 := by
  have hold : ∀ map ∈ s.maps, Intact x (tstAlloc t size addr random s).2.mem map := by
    intro map hmap o ho hx
    rw [tstAlloc_elsewhere random hmapped haccess hmap (h.wellMade map hmap).inside ho]
    exact h.intact map hmap o ho hx
  have hmirror : ∀ i < t.bufShift size / 2,
      (tstAlloc t size addr random s).2.mem (addr + (t.bufShift size - i - 1)) =
        (tstAlloc t size addr random s).2.mem (addr + i) := fun i => setupCanary_mirrored
  have hmaps : (tstAlloc t size addr random s).2.maps =
      newMap t size addr (tstAlloc t size addr random s).2.mem :: s.maps := rfl
  generalize (tstAlloc t size addr random s).2 = s' at hold hmirror hmaps
  have hload : ∀ o < t.bufShift size,
      (newMap t size addr s'.mem).canary[o]? = some (s'.mem (addr + o)) :=
    fun o ho => Memory.getElem?_load s'.mem addr ho
  constructor
  · rw [hmaps]
    refine List.forall_mem_cons.mpr
      ⟨⟨⟨rfl, rfl, rfl⟩, bufShift_le_mapSize hmapped haccess, fun i hi => ?_⟩, h.wellMade⟩
    have hi : i < t.bufShift size / 2 := hi
    have hpartner := hload (t.bufShift size - i - 1) (by omega)
    rw [hmirror i hi] at hpartner
    exact hpartner.trans (hload i (by omega)).symm
  · rw [hmaps]
    exact List.forall_mem_cons.mpr ⟨fun o ho _ => hload o ho, hold⟩
  · rw [hmaps]
    exact List.Pairwise.cons hmapped.apart h.apart

theorem BufferInv.store {a : ℕ} {b : UInt8} (h : BufferInv t x s)
    (hgap : a = x ∨ (∀ map ∈ s.maps, ¬ map.InGap a) ∨ s.mem a = b) :
    BufferInv t x { s with mem := Function.update s.mem a b } := by
  refine ⟨h.wellMade, ?_, h.apart⟩
  intro map hmap o ho hx
  have hsame : Function.update s.mem a b (map.addr + o) = s.mem (map.addr + o) := by
    by_cases ha : map.addr + o = a
    · rcases hgap with hax | hfree | hvalue
      · exact absurd (ha.trans hax) hx
      · refine absurd ⟨?_, ?_⟩ (hfree map hmap)
        · omega
        · unfold GuardMap.buffer
          omega
      · rw [ha, Function.update_self, hvalue]
    · exact Function.update_of_ne ha b s.mem
  exact (h.intact map hmap o ho hx).trans (congrArg some hsame.symm)

/-- The invariant holds in every run. -/
theorem BufferRun.inv (h : BufferRun t x s) : BufferInv t x s := by
  induction h with
  | start mem =>
      exact ⟨fun _ hmap => absurd hmap List.not_mem_nil,
        fun _ hmap => absurd hmap List.not_mem_nil, List.Pairwise.nil⟩
  | alloc size addr random _ _ hmapped haccess ih => exact ih.alloc random hmapped haccess
  | store a b _ hgap ih => exact ih.store hgap

/-- A gap that is as it was set up gives no warning. -/
theorem checkCanary_eq_nil (hmade : WellMade t map)
    (hintact : ∀ o < map.bufShift, map.canary[o]? = some (mem (map.addr + o))) :
    checkCanary mem map = [] := by
  rw [checkCanary, List.map_eq_nil_iff, List.filter_eq_nil_iff]
  intro i hi
  rw [List.mem_range] at hi
  have hmirror := hmade.mirrored i hi
  rw [hintact i (by omega), hintact (map.bufShift - i - 1) (by omega)] at hmirror
  simpa using hmirror

theorem mem_checkCanary_map {w : CanaryWarning} (h : w ∈ checkCanary mem map) : w.map = map := by
  obtain ⟨i, -, rfl⟩ := List.mem_map.mp h
  rfl

/-- One changed byte is reported, unless it is the middle one, which has no partner. -/
theorem checkCanary_ne_nil_iff {o : ℕ} (hmade : WellMade t map) (ho : o < map.bufShift)
    (hintact : Intact (map.addr + o) mem map)
    (hchanged : map.canary[o]? ≠ some (mem (map.addr + o))) :
    checkCanary mem map ≠ [] ↔ 2 * o + 1 ≠ map.bufShift := by
  constructor
  · intro hwarn hmiddle
    apply hwarn
    rw [checkCanary, List.map_eq_nil_iff, List.filter_eq_nil_iff]
    intro i hi
    rw [List.mem_range] at hi
    have hmirror := hmade.mirrored i hi
    rw [hintact i (by omega) (by omega), hintact (map.bufShift - i - 1) (by omega) (by omega)]
      at hmirror
    simpa using hmirror
  · intro hside hnil
    rw [checkCanary, List.map_eq_nil_iff, List.filter_eq_nil_iff] at hnil
    -- the partner of the changed byte is as it was
    have hpartner := hintact (map.bufShift - o - 1) (by omega) (by omega)
    by_cases hhalf : o < map.bufShift / 2
    · have hsame := hnil o (List.mem_range.mpr hhalf)
      rw [decide_eq_true_iff, not_not] at hsame
      rw [hmade.mirrored o hhalf, hsame] at hpartner
      exact hchanged hpartner
    · have hlow : map.bufShift - o - 1 < map.bufShift / 2 := by omega
      have hback : map.bufShift - (map.bufShift - o - 1) - 1 = o := by omega
      have hsame := hnil (map.bufShift - o - 1) (List.mem_range.mpr hlow)
      rw [decide_eq_true_iff, not_not, hback] at hsame
      have hmirror := hmade.mirrored (map.bufShift - o - 1) hlow
      rw [hback, hpartner, ← hsame] at hmirror
      exact hchanged hmirror

end Runs

/-- In every run each buffer ends at its inaccessible page exactly when the pages of its mapping
can be counted, and one changed byte in front of a buffer is reported for this buffer and for
no other exactly when it is not the middle byte of an odd gap. -/
theorem guardedBuffers_iff (t : BufferTarget) (x : ℕ) (s : BufferState) (pid : ℤ)
    (h : BufferRun t x s) :
    (∀ map ∈ s.maps, EndsAtGuard t map ↔ PagesFit t map.asked) ∧
    ∀ map ∈ s.maps, ∀ o < map.bufShift, x = map.addr + o →
      map.canary[o]? ≠ some (s.mem x) →
      (((∃ w ∈ (tstFreeAll pid s).1, w.map = map) ∧ ∀ w ∈ (tstFreeAll pid s).1, w.map = map) ↔
        2 * o + 1 ≠ map.bufShift) := by
  have hinv := h.inv
  refine ⟨fun map hmap => endsAtGuard_iff (hinv.wellMade map hmap).made, ?_⟩
  rintro map hmap o ho rfl hchanged
  have hmade := hinv.wellMade map hmap
  have hiff := checkCanary_ne_nil_iff hmade ho (hinv.intact map hmap) hchanged
  have hothers : ∀ other ∈ s.maps, other ≠ map → checkCanary s.mem other = [] := by
    intro other hother hne
    have hsep := hinv.apart.forall hother hmap hne
    have hin := hmade.inside
    have hin' := (hinv.wellMade other hother).inside
    apply checkCanary_eq_nil (hinv.wellMade other hother)
    intro o' ho'
    apply hinv.intact other hother o' ho'
    rcases hsep with hsep | hsep
    · omega
    · omega
  have hall : ∀ w ∈ (tstFreeAll pid s).1, w ∈ checkCanary s.mem map := by
    intro w hw
    obtain ⟨other, hother, hw⟩ := List.mem_flatMap.mp hw
    by_cases hsame : other = map
    · exact hsame ▸ hw
    · rw [hothers other hother hsame] at hw
      exact absurd hw List.not_mem_nil
  rw [← hiff]
  constructor
  · rintro ⟨⟨w, hw, -⟩, -⟩
    exact List.ne_nil_of_mem (hall w hw)
  · intro hne
    obtain ⟨w, hw⟩ := List.exists_mem_of_ne_nil _ hne
    exact ⟨⟨w, List.mem_flatMap.mpr ⟨map, hmap, hw⟩, mem_checkCanary_map hw⟩,
      fun w hw => mem_checkCanary_map (hall w hw)⟩

/-- A 64-bit target with pages of 4096 bytes. -/
def page4k : BufferTarget := ⟨.lp64, 4096, by decide, by decide⟩

/-- One buffer of `size` bytes, and the first byte of its mapping changed by the test. -/
def oneChanged (size : ℕ) : BufferState :=
  let s := (tstAlloc page4k size 65536 (fun _ => 7) { mem := fun _ => 0 }).2
  { s with mem := Function.update s.mem 65536 1 }

theorem oneChanged_run {size : ℕ} (hsize : size < 2 ^ 64) (hpos : 0 < page4k.mapSize size)
    (haccess : Accessible page4k size) : BufferRun page4k 65536 (oneChanged size) :=
  .store 65536 1
    (.alloc size 65536 (fun _ => 7) (.start fun _ => 0) hsize
      ⟨hpos, fun _ hmap => absurd hmap List.not_mem_nil⟩ haccess)
    (Or.inl rfl)

/-- A gap of two bytes, the first of them changed. -/
theorem guardedBuffers_iff_pair :
    ∃ w ∈ (tstFreeAll 1 (oneChanged 4094)).1, w.map.buffer = 65538 := by
  have hrun : BufferRun page4k 65536 (oneChanged 4094) :=
    oneChanged_run (by decide) (by decide) (fun _ => ⟨by decide, Or.inl (by decide)⟩)
  obtain ⟨map, hmap⟩ : ∃ map, (oneChanged 4094).maps = [map] := ⟨_, rfl⟩
  have hgap : map.bufShift = 2 ∧ map.addr = 65536 ∧ map.canary = [7, 7] := by
    cases hmap
    decide
  obtain ⟨⟨w, hw, hwmap⟩, -⟩ := ((guardedBuffers_iff page4k 65536 (oneChanged 4094) 1 hrun).2
    map (by simp [hmap]) 0 (by omega) (by omega) (by
      rw [hgap.2.2]
      decide)).mpr (by omega)
  refine ⟨w, hw, ?_⟩
  rw [hwmap, GuardMap.buffer, hgap.1, hgap.2.1]

/-- The one byte of an odd gap that has no partner is changed, and nothing is reported. -/
theorem middle_unreported :
    BufferRun page4k 65536 (oneChanged 4095) ∧
      (∀ map ∈ (oneChanged 4095).maps, map.addr = 65536 ∧ map.bufShift = 1 ∧
        map.canary[0]? ≠ some ((oneChanged 4095).mem 65536)) ∧
      (tstFreeAll 1 (oneChanged 4095)).1 = [] := by
  refine ⟨oneChanged_run (by decide) (by decide) ?_, by decide, by decide⟩
  intro hshift
  exact absurd hshift (by decide)

end EDDTs.LtpLib
