import EDDTs.Boards.Resm
import Mathlib.Algebra.BigOperators.Group.List.Basic
import Mathlib.Algebra.Order.Field.Rat
import Mathlib.Data.List.GetD
import Mathlib.Data.List.Permutation
import Mathlib.Data.List.Sort
import Mathlib.Data.Rat.Cast.Order
import Mathlib.Tactic.Linarith

/-!
# The verdict of the timer tests

`do_timer_test` (`lib/tst_timer_test.c`) on the samples it has taken. They are sorted with a
comparison that narrows a difference of 64 bits to `int`, and the threshold is computed in
`unsigned int`. The sorting function of the C library is only known to sort when the comparison
is consistent. The requested time and the number of samples are those of an `int`, so that
nothing else overflows. The messages with numbers for information are left out.
-/

namespace EDDTs.LtpLib

open Library Boards

/-- What `timer_setup` has found: the resolution of the clock and the timer slack, both
`unsigned int` and in microseconds; and the name of the call. -/
structure TimerConfig where
  resolution : ℕ
  timerslack : ℕ
  scall : Text

/-- `cmp`: the difference as an `int`. -/
def cmpSamples (a b : ℤ) : ℤ := (b - a).bmod (2 ^ 32)

/-- The slack for one call: a part of the requested time, or what the kernel allows. -/
def slackPerScall (cfg : TimerConfig) (usec : ℕ) : ℕ :=
  max (min 100000 (usec / 1000)) cfg.timerslack

/-- `compute_threshold`, an `unsigned int` in every step. -/
def computeThreshold (cfg : TimerConfig) (usec nsamples : ℕ) : ℕ :=
  let perCall := ((400 + 2 * cfg.resolution % 2 ^ 32) % 2 ^ 32 + slackPerScall cfg usec) % 2 ^ 32
  (perCall * nsamples % 2 ^ 32 + 3000 / nsamples) % 2 ^ 32

/-- `compute_discard` -/
def computeDiscard (nsamples : ℕ) : ℕ := if nsamples = 1 then 0 else max 1 (nsamples / 20)

/-- The index at which the search for early samples stops, from `samples[i - 1]` down. In front
of the array it stops whatever is read there. -/
def earlyFrom (usec : ℕ) (samples : List ℤ) : ℕ → ℤ
  | 0 => -1
  | i + 1 => if samples.getD i 0 < usec then earlyFrom usec samples i else i

/-- The check for samples that were woken up early. -/
def checkEarly (cfg : TimerConfig) (usec : ℕ) (samples : List ℤ) : List Message :=
  let nsamples := samples.length
  let i := earlyFrom usec samples nsamples
  if i < nsamples - 1 then
    [⟨.fail, cfg.scall ++ txt " woken up early " ++ intText (nsamples - 1 - i) ++
      txt " times range: [" ++ intText (samples.getD (i + 1).toNat 0) ++ txt "," ++
      intText (samples.getD (nsamples - 1) 0) ++ txt "]", false⟩]
  else []

/-- The check of the truncated mean. -/
def checkMean (cfg : TimerConfig) (usec : ℕ) (samples : List ℤ) : List Message :=
  let discard := computeDiscard samples.length
  let keepSamples := samples.length - discard
  let threshold := computeThreshold cfg usec keepSamples
  if keepSamples * usec + threshold < (samples.drop discard).sum then
    [⟨.fail, cfg.scall ++ txt " slept for too long", false⟩]
  else []

/-- What `do_timer_test` reports on the sorted samples; `failed` is set with each failure. -/
def doTimerTest (cfg : TimerConfig) (usec : ℕ) (samples : List ℤ) : List Message :=
  let failures := checkEarly cfg usec samples ++ checkMean cfg usec samples
  failures ++
    if failures = [] then [⟨.pass, txt "Measured times are within thresholds", false⟩] else []

/-- It reports TPASS. -/
def Passes (cfg : TimerConfig) (usec : ℕ) (samples : List ℤ) : Prop :=
  ∃ m ∈ doTimerTest cfg usec samples, m.ttype = .pass

/-- The comparison is a total preorder on the samples. -/
structure Consistent (samples : List ℤ) : Prop where
  swap : ∀ a ∈ samples, ∀ b ∈ samples, cmpSamples a b < 0 ↔ 0 < cmpSamples b a
  trans : ∀ a ∈ samples, ∀ b ∈ samples, ∀ c ∈ samples,
    cmpSamples a b ≤ 0 → cmpSamples b c ≤ 0 → cmpSamples a c ≤ 0

/-- An order of the samples in which each comes before those that `cmp` puts behind it. -/
def IsOrder (samples sorted : List ℤ) : Prop :=
  sorted.Perm samples ∧ sorted.Pairwise fun a b => cmpSamples a b ≤ 0

/-- What `qsort` may leave in the array. -/
structure Qsorted (samples sorted : List ℤ) : Prop where
  length_eq : sorted.length = samples.length
  order : Consistent samples → IsOrder samples sorted

/-! ### The exact verdict -/

/-- The sum of the `k` smallest samples. -/
def smallest (samples : List ℤ) (k : ℕ) : ℤ := ((samples.insertionSort (· ≤ ·)).take k).sum

/-- How many samples are kept. -/
def keptCount (samples : List ℤ) : ℕ := samples.length - computeDiscard samples.length

/-- The threshold without overflow, of which an `unsigned int` has the lower bits. -/
def exactThreshold (cfg : TimerConfig) (usec k : ℕ) : ℕ :=
  (400 + 2 * cfg.resolution + slackPerScall cfg usec) * k + 3000 / k

/-- All samples are at least as long as requested, and the smallest within the exact threshold. -/
def ExactPass (cfg : TimerConfig) (usec : ℕ) (samples : List ℤ) : Prop :=
  (∀ x ∈ samples, (usec : ℤ) ≤ x) ∧
    (smallest samples (keptCount samples) : ℚ) ≤
      keptCount samples * usec +
        keptCount samples * (400 + 2 * cfg.resolution + slackPerScall cfg usec) +
        3000 / keptCount samples

section Verdict

variable {cfg : TimerConfig} {usec : ℕ} {samples sorted : List ℤ}

theorem computeThreshold_eq (cfg : TimerConfig) (usec k : ℕ) :
    computeThreshold cfg usec k = exactThreshold cfg usec k % 2 ^ 32 := by
  unfold computeThreshold exactThreshold
  simp only [Nat.add_mod_mod, Nat.mod_add_mod, Nat.mod_mul_mod]

theorem computeDiscard_lt {n : ℕ} (h : 1 ≤ n) : computeDiscard n < n := by
  unfold computeDiscard
  split_ifs <;> omega

/-- The search goes on in front of the last sample exactly when this is early. -/
theorem earlyFrom_lt_iff {n : ℕ} (hn : 1 ≤ n) (samples : List ℤ) :
    earlyFrom usec samples n < n - 1 ↔ samples.getD (n - 1) 0 < usec := by
  have hle : ∀ i, earlyFrom usec samples i < i := by
    intro i
    induction i with
    | zero => exact Int.negSucc_lt_zero 0
    | succ i ih =>
        rw [earlyFrom]
        split_ifs
        · push_cast
          omega
        · push_cast
          omega
  obtain ⟨i, rfl⟩ := Nat.exists_eq_add_of_le' hn
  rw [earlyFrom, Nat.add_sub_cancel]
  have hi := hle i
  split_ifs with hearly
  · refine iff_of_true ?_ hearly
    push_cast
    omega
  · refine iff_of_false ?_ hearly
    push_cast
    omega

theorem checkEarly_eq_nil_iff (cfg : TimerConfig) (hne : samples ≠ []) :
    checkEarly cfg usec samples = [] ↔ (usec : ℤ) ≤ samples.getLast hne := by
  have hlen : 1 ≤ samples.length := List.length_pos_of_ne_nil hne
  have hlast : samples.getD (samples.length - 1) 0 = samples.getLast hne := by
    rw [List.getD_eq_getElem _ _ (by omega), List.getLast_eq_getElem]
  rw [← not_lt, ← hlast, ← earlyFrom_lt_iff hlen, checkEarly]
  split_ifs with h
  · exact iff_of_false not_false (not_not_intro h)
  · exact iff_of_true rfl h

theorem checkMean_eq_nil_iff (cfg : TimerConfig) (usec : ℕ) (samples : List ℤ) :
    checkMean cfg usec samples = [] ↔
      (samples.drop (computeDiscard samples.length)).sum ≤
        keptCount samples * usec +
          (exactThreshold cfg usec (keptCount samples) % 2 ^ 32 : ℕ) := by
  rw [← computeThreshold_eq, ← not_lt, checkMean, keptCount]
  split_ifs with h
  · exact iff_of_false not_false (not_not_intro h)
  · exact iff_of_true rfl h

/-- The two checks report failures only. -/
theorem ttype_of_mem_checks {m : Message}
    (h : m ∈ checkEarly cfg usec samples ++ checkMean cfg usec samples) : m.ttype = .fail := by
  unfold checkEarly checkMean at h
  rcases List.mem_append.mp h with h | h
  all_goals
    dsimp only at h
    split_ifs at h
    · rw [List.mem_singleton.mp h]
    · cases h

/-- TPASS is reported when the last sample is not early, and those that are kept are within
the threshold. -/
theorem passes_iff (hne : samples ≠ []) :
    Passes cfg usec samples ↔
      (usec : ℤ) ≤ samples.getLast hne ∧
        (samples.drop (computeDiscard samples.length)).sum ≤
          keptCount samples * usec +
            (exactThreshold cfg usec (keptCount samples) % 2 ^ 32 : ℕ) := by
  rw [← checkEarly_eq_nil_iff cfg hne, ← checkMean_eq_nil_iff, ← List.append_eq_nil_iff, Passes,
    doTimerTest]
  constructor
  · rintro ⟨m, hm, hpass⟩
    by_contra hfail
    rw [if_neg hfail, List.append_nil] at hm
    rw [ttype_of_mem_checks hm] at hpass
    cases hpass
  · intro hnil
    rw [if_pos hnil]
    exact ⟨_, List.mem_append_right _ List.mem_cons_self, rfl⟩

/-- In whole numbers the part of the threshold for few samples is rounded down. -/
theorem exactPass_iff (cfg : TimerConfig) (usec : ℕ) (hne : samples ≠ []) :
    ExactPass cfg usec samples ↔
      (∀ x ∈ samples, (usec : ℤ) ≤ x) ∧
        smallest samples (keptCount samples) ≤
          keptCount samples * usec + exactThreshold cfg usec (keptCount samples) := by
  have hlen : 1 ≤ samples.length := List.length_pos_of_ne_nil hne
  have hkept : 0 < keptCount samples := Nat.sub_pos_of_lt (computeDiscard_lt hlen)
  rw [ExactPass, exactThreshold]
  generalize keptCount samples = k at hkept
  generalize smallest samples k = total
  refine and_congr_right fun _ => ?_
  generalize slackPerScall cfg usec = slack
  have hk : (0 : ℚ) < k := by exact_mod_cast hkept
  have hrest : ∀ z : ℤ, (z : ℚ) ≤ 3000 / k ↔ z ≤ 3000 / (k : ℤ) := by
    intro z
    rw [le_div_iff₀ hk, Int.le_ediv_iff_mul_le (by exact_mod_cast hkept)]
    exact_mod_cast Iff.rfl
  have hz := hrest (total - k * usec - k * (400 + 2 * cfg.resolution + slack))
  push_cast at hz ⊢
  constructor
  · intro h
    have := hz.mp (by linarith)
    linarith
  · intro h
    have := hz.mpr (by linarith)
    linarith

end Verdict

/-! ### Samples that lie close together -/

/-- No two samples are as far apart as the range of `int`. -/
def Close (samples : List ℤ) : Prop := ∀ x ∈ samples, ∀ y ∈ samples, x - y < 2 ^ 31

section Close

variable {samples sorted : List ℤ}

/-- Of close samples `cmp` is the difference. -/
theorem Close.cmp_eq (h : Close samples) {a b : ℤ} (ha : a ∈ samples) (hb : b ∈ samples) :
    cmpSamples a b = b - a := by
  have hab := h a ha b hb
  have hba := h b hb a ha
  exact Int.bmod_eq_of_le_mul_two (by push_cast; omega) (by push_cast; omega)

theorem Close.consistent (h : Close samples) : Consistent samples := by
  constructor
  · intro a ha b hb
    rw [h.cmp_eq ha hb, h.cmp_eq hb ha]
    omega
  · intro a ha b hb c hc
    rw [h.cmp_eq ha hb, h.cmp_eq hb hc, h.cmp_eq ha hc]
    omega

/-- The only order of close samples is the descending one. -/
theorem Close.isOrder_iff (h : Close samples) :
    IsOrder samples sorted ↔ sorted = (samples.insertionSort (· ≤ ·)).reverse := by
  have hperm := List.perm_insertionSort (· ≤ ·) samples
  have hpair := List.pairwise_insertionSort (· ≤ ·) samples
  constructor
  · rintro ⟨hsame, hsorted⟩
    have hdesc : sorted.Pairwise fun a b => b ≤ a := by
      refine hsorted.imp_of_mem fun ha hb hab => ?_
      rw [h.cmp_eq (hsame.subset ha) (hsame.subset hb)] at hab
      omega
    have hasc : sorted.reverse.Pairwise (· ≤ ·) := List.pairwise_reverse.mpr hdesc
    have hsorted : sorted.reverse.Perm (samples.insertionSort (· ≤ ·)) :=
      (List.reverse_perm sorted).trans (hsame.trans hperm.symm)
    rw [← hsorted.eq_of_pairwise' hasc hpair, List.reverse_reverse]
  · rintro rfl
    refine ⟨(List.reverse_perm _).trans hperm, List.pairwise_reverse.mpr ?_⟩
    refine hpair.imp_of_mem fun ha hb hab => ?_
    rw [h.cmp_eq (hperm.subset hb) (hperm.subset ha)]
    omega

/-- The least of an ascending list is its first. -/
theorem le_head_iff {u : ℤ} {l : List ℤ} (hne : l ≠ []) (h : l.Pairwise (· ≤ ·)) :
    u ≤ l.head hne ↔ ∀ x ∈ l, u ≤ x := by
  constructor
  · intro hle
    cases l with
    | nil => exact absurd rfl hne
    | cons least rest =>
        exact List.forall_mem_cons.mpr
          ⟨hle, fun x hx => hle.trans ((List.pairwise_cons.mp h).1 x hx)⟩
  · intro hall
    exact hall _ (List.head_mem hne)

/-- The kept samples of the descending order are the smallest, and its last is the least. -/
theorem passes_descending (cfg : TimerConfig) (usec : ℕ) (hne : samples ≠ []) :
    Passes cfg usec (samples.insertionSort (· ≤ ·)).reverse ↔
      (∀ x ∈ samples, (usec : ℤ) ≤ x) ∧
        smallest samples (keptCount samples) ≤
          keptCount samples * usec +
            (exactThreshold cfg usec (keptCount samples) % 2 ^ 32 : ℕ) := by
  have hperm := List.perm_insertionSort (· ≤ ·) samples
  have hpair := List.pairwise_insertionSort (· ≤ ·) samples
  have hlength := hperm.length_eq
  have hall : (∀ x ∈ samples, (usec : ℤ) ≤ x) ↔
      ∀ x ∈ samples.insertionSort (· ≤ ·), (usec : ℤ) ≤ x :=
    forall_congr' fun x => imp_congr_left hperm.mem_iff.symm
  have hsum : ((samples.insertionSort (· ≤ ·)).reverse.drop (computeDiscard samples.length)).sum =
      smallest samples (keptCount samples) := by
    rw [List.drop_reverse, List.sum_reverse, hlength]
    rfl
  have hcount : keptCount (samples.insertionSort (· ≤ ·)).reverse = keptCount samples := by
    rw [keptCount, List.length_reverse, hlength, keptCount]
  have hnil : (samples.insertionSort (· ≤ ·)).reverse ≠ [] := by
    intro h
    rw [List.reverse_eq_nil_iff] at h
    rw [h] at hperm
    exact hne hperm.symm.eq_nil
  rw [passes_iff hnil, hcount, List.length_reverse, hlength, hsum, hall]
  refine and_congr_left fun _ => ?_
  rw [List.getLast_reverse]
  exact le_head_iff _ hpair

end Close

section Right

variable {cfg : TimerConfig} {usec : ℕ} {samples sorted : List ℤ}

/-- TPASS is reported exactly when it should be, whatever `qsort` leaves in the array. -/
def Right (cfg : TimerConfig) (usec : ℕ) (samples : List ℤ) : Prop :=
  ∀ sorted, Qsorted samples sorted → (Passes cfg usec sorted ↔ ExactPass cfg usec samples)

theorem qsorted_of_isOrder (h : IsOrder samples sorted) : Qsorted samples sorted :=
  ⟨h.1.length_eq, fun _ => h⟩

/-- Samples that are all as long as requested pass. -/
theorem passes_replicate {n : ℕ} (hn : 1 ≤ n) : Passes cfg usec (List.replicate n (usec : ℤ)) := by
  have hne : List.replicate n (usec : ℤ) ≠ [] := by
    rw [Ne, List.replicate_eq_nil_iff]
    omega
  rw [passes_iff hne, List.getLast_replicate, List.length_replicate, List.drop_replicate,
    List.sum_replicate, nsmul_eq_mul, keptCount, List.length_replicate]
  exact ⟨le_rfl, Int.le_add_of_nonneg_right (Int.natCast_nonneg _)⟩

/-- With one that is too long by the range of `unsigned int` they do not. -/
theorem not_passes_long {n : ℕ} (hn : 1 ≤ n) :
    ¬ Passes cfg usec (List.replicate (n - 1) (usec : ℤ) ++ [(usec : ℤ) + 2 ^ 32]) := by
  have hlength : (List.replicate (n - 1) (usec : ℤ) ++ [(usec : ℤ) + 2 ^ 32]).length = n := by
    rw [List.length_append, List.length_replicate, List.length_singleton]
    omega
  have hdiscard := computeDiscard_lt hn
  rw [passes_iff (by simp), hlength, keptCount, hlength,
    List.drop_append_of_le_length (by rw [List.length_replicate]; omega), List.drop_replicate,
    List.sum_append, List.sum_replicate, List.sum_singleton, nsmul_eq_mul]
  rintro ⟨-, hsum⟩
  have hcount : ((n - computeDiscard n : ℕ) : ℤ) * usec =
      ((n - 1 - computeDiscard n : ℕ) : ℤ) * usec + usec := by
    have hone : n - computeDiscard n = n - 1 - computeDiscard n + 1 := by omega
    rw [hone, Nat.cast_add, Nat.cast_one, add_mul, one_mul]
  rw [hcount] at hsum
  omega

/-- Where the comparison is not consistent, nothing is known of the array. -/
theorem Right.consistent (hne : samples ≠ []) (h : Right cfg usec samples) :
    Consistent samples := by
  have hlen : 1 ≤ samples.length := List.length_pos_of_ne_nil hne
  by_contra hnot
  have hpass := h (List.replicate samples.length (usec : ℤ))
    ⟨List.length_replicate, fun hcon => absurd hcon hnot⟩
  have hfail := h (List.replicate (samples.length - 1) (usec : ℤ) ++ [(usec : ℤ) + 2 ^ 32])
    ⟨by rw [List.length_append, List.length_replicate, List.length_singleton]; omega,
      fun hcon => absurd hcon hnot⟩
  exact not_passes_long hlen (hfail.mpr (hpass.mp (passes_replicate hlen)))

/-- Close samples have one order, the descending one. -/
theorem right_iff_descending (hclose : Close samples) :
    Right cfg usec samples ↔
      (Passes cfg usec (samples.insertionSort (· ≤ ·)).reverse ↔ ExactPass cfg usec samples) := by
  constructor
  · intro h
    exact h _ (qsorted_of_isOrder (hclose.isOrder_iff.mpr rfl))
  · intro h sorted hsorted
    rw [hclose.isOrder_iff.mp (hsorted.order hclose.consistent)]
    exact h

end Right

/-- For samples that lie close together the verdict is the exact one, whatever `qsort` does,
exactly when the bits that the threshold loses do not change it. For others it can be so only
where the comparison is consistent. -/
theorem doTimerTest_iff (cfg : TimerConfig) (usec : ℕ) (samples : List ℤ) (hne : samples ≠ []) :
    (Close samples →
      ((∀ sorted, Qsorted samples sorted →
          (Passes cfg usec sorted ↔ ExactPass cfg usec samples)) ↔
        ¬ ((∀ x ∈ samples, (usec : ℤ) ≤ x) ∧
          keptCount samples * usec +
              (exactThreshold cfg usec (keptCount samples) % 2 ^ 32 : ℕ) <
            smallest samples (keptCount samples) ∧
          smallest samples (keptCount samples) ≤
            keptCount samples * usec + exactThreshold cfg usec (keptCount samples)))) ∧
    ((∀ sorted, Qsorted samples sorted →
        (Passes cfg usec sorted ↔ ExactPass cfg usec samples)) → Consistent samples) := by
  refine ⟨fun hclose => ?_, Right.consistent hne⟩
  have hmod : exactThreshold cfg usec (keptCount samples) % 2 ^ 32 ≤
      exactThreshold cfg usec (keptCount samples) := Nat.mod_le _ _
  refine (right_iff_descending hclose).trans ?_
  rw [passes_descending cfg usec hne, exactPass_iff cfg usec hne]
  constructor
  · rintro hiff ⟨hall, hlow, hhigh⟩
    have hpassed := (hiff.mpr ⟨hall, hhigh⟩).2
    omega
  · intro hnot
    refine and_congr_right fun hall => ⟨fun h => ?_, fun h => ?_⟩
    · omega
    · by_contra hlow
      exact hnot ⟨hall, not_le.mp hlow, h⟩

/-- A clock of high resolution and the usual slack. -/
def usualClock : TimerConfig := ⟨0, 50, txt "nanosleep()"⟩

theorem doTimerTest_iff_three :
    Passes usualClock 1000 [1060, 1058, 1055] ↔ ExactPass usualClock 1000 [1055, 1060, 1058] := by
  have hclose : Close [1055, 1060, 1058] := by
    unfold Close
    decide
  refine ((doTimerTest_iff usualClock 1000 [1055, 1060, 1058] (by decide)).1 hclose).mpr
    (by decide) _ (qsorted_of_isOrder ?_)
  exact hclose.isOrder_iff.mpr (by decide)

/-- Two samples of which one is half an hour too long: `cmp` puts the shorter one first, and
the longer one is kept. -/
theorem doTimerTest_outlier :
    ExactPass usualClock 10 [10, 2147483663] ∧
      Qsorted [10, 2147483663] [10, 2147483663] ∧
      ∀ sorted, Qsorted [10, 2147483663] sorted → ¬ Passes usualClock 10 sorted := by
  have hcon : Consistent [10, 2147483663] := ⟨by decide, by decide⟩
  have horder : IsOrder [10, 2147483663] [10, 2147483663] := ⟨.refl _, by decide⟩
  refine ⟨(exactPass_iff usualClock 10 (by decide)).mpr (by decide), qsorted_of_isOrder horder, ?_⟩
  intro sorted hsorted
  obtain ⟨hperm, hpair⟩ := hsorted.order hcon
  have hcases : sorted = [10, 2147483663] ∨ sorted = [2147483663, 10] := by
    have hmem := List.mem_permutations.mpr hperm
    simpa [List.permutations] using hmem
  rcases hcases with rfl | rfl
  · rw [passes_iff (by decide)]
    decide
  · exact absurd hpair (by decide)

end EDDTs.LtpLib
