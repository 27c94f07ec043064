import Mathlib.Algebra.Order.Ring.Int
import Mathlib.Data.Nat.Init
import Mathlib.Logic.Function.Basic
import Mathlib.Tactic.Common

/-!
# Results of a test

The counters that the processes of a test share, and what happens in a run: the results that
are reported, the ends of the test processes, and the reads of the counters by `do_exit`.

## Implementation notes

The counters are incremented atomically and wrap around. A run is recorded as a list of notes,
the latest first.
-/

namespace EDDTs.TstTest

/-- Exit statuses, and the values of `ret`. -/
abbrev Status := BitVec 8

/-- The result types of `tst_res_flags.h`. -/
inductive TType
  | pass
  | fail
  | brok
  | warn
  | info
  | conf
  deriving DecidableEq, Repr

def TType.code : TType → Status
  | .pass => 0
  | .fail => 1
  | .brok => 2
  | .warn => 4
  | .info => 16
  | .conf => 32

/-- The types that `tst_brk` is called with. -/
inductive BrkType
  | brok
  | conf
  deriving DecidableEq, Repr

def BrkType.code : BrkType → Status
  | .brok => TType.brok.code
  | .conf => TType.conf.code

/-- The members of `struct results`. -/
inductive Counter
  | passed
  | skipped
  | failed
  | warnings
  deriving DecidableEq, Repr

/-- `struct results` in shared memory. -/
abbrev Results := Counter → UInt32

/-- The counter for a type of result. -/
def counterOf : TType → Option Counter
  | .conf => some .skipped
  | .pass => some .passed
  | .warn => some .warnings
  | .fail => some .failed
  | .brok | .info => none

/-- `update_results`, once the results are mapped. -/
def updateResults (t : TType) (r : Results) : Results :=
  match counterOf t with
  | none => r
  | some c => Function.update r c (r c + 1)

/-- How a process ends. -/
inductive End
  | exited (code : Status)
  | signaled (sig : ℕ)
  deriving DecidableEq, Repr

/-- The reads of the counters in `do_exit`, in their order. -/
inductive Read
  | passedFirst
  | failed
  | skipped
  | passedAgain
  | warnings
  deriving DecidableEq, Repr

def Read.counter : Read → Counter
  | .passedFirst | .passedAgain => .passed
  | .failed => .failed
  | .skipped => .skipped
  | .warnings => .warnings

/-- What happens in a run. -/
inductive Note
  /-- a result is reported, by a process that has the results mapped or has not -/
  | reported (mapped : Bool) (t : TType)
  /-- `tst_brk(TBROK)` is called while the test cleans up -/
  | cleanupBroke
  /-- a test process ends; it is the only one of its variant, or the last one -/
  | testEnded (last : Bool) (e : End)
  /-- the library process calls `tst_brk` -/
  | libBroke (t : BrkType)
  /-- `do_exit` reads a counter -/
  | read (r : Read)
  deriving DecidableEq, Repr

/-- The note is of a result that the counter counts. -/
def Note.counts (c : Counter) : Note → Bool
  | .reported true t => counterOf t = some c
  | _ => false

/-- How many results the counter has counted. -/
def counted (c : Counter) (log : List Note) : ℕ := log.countP (Note.counts c)

/-- How many results had been counted at the last time of a read. -/
def seen (r : Read) : List Note → ℕ
  | [] => 0
  | .read r' :: log => if r' = r then counted r.counter log else seen r log
  | _ :: log => seen r log

/-- The last read was not of a zero: the number of results was no multiple of `2 ^ 32`. -/
def readNonzero (log : List Note) (r : Read) : Bool := ¬ 2 ^ 32 ∣ seen r log

section Counting

variable {c : Counter} {r : Read} {log : List Note} {n : Note}

theorem counted_cons : counted c (n :: log) = counted c log + if n.counts c then 1 else 0 :=
  List.countP_cons

theorem seen_cons (h : n ≠ .read r) : seen r (n :: log) = seen r log := by
  cases n with
  | read r' => exact if_neg fun hr => h (congrArg Note.read hr)
  | reported | cleanupBroke | testEnded | libBroke => rfl

theorem seen_read (r : Read) (log : List Note) :
    seen r (.read r :: log) = counted r.counter log :=
  if_pos rfl

theorem seen_eq_zero (h : .read r ∉ log) : seen r log = 0 := by
  induction log with
  | nil => rfl
  | cons n log ih =>
      rw [seen_cons fun hn => h (hn ▸ List.mem_cons_self)]
      exact ih fun hmem => h (List.mem_cons_of_mem n hmem)

/-- A read that is not of a zero is of a result that was reported. -/
theorem exists_of_counted (h : counted c log ≠ 0) :
    ∃ t, counterOf t = some c ∧ .reported true t ∈ log := by
  obtain ⟨n, hn, hcounts⟩ := List.countP_pos_iff.mp (Nat.pos_of_ne_zero h)
  cases n with
  | reported mapped t =>
      cases mapped with
      | true => exact ⟨t, of_decide_eq_true hcounts, hn⟩
      | false => cases hcounts
  | cleanupBroke | testEnded | libBroke | read => cases hcounts

theorem exists_of_seen (h : seen r log ≠ 0) :
    ∃ t, counterOf t = some r.counter ∧ .reported true t ∈ log := by
  induction log with
  | nil => exact absurd rfl h
  | cons n log ih =>
      by_cases hn : n = .read r
      · subst hn
        rw [seen_read] at h
        obtain ⟨t, ht, hmem⟩ := exists_of_counted h
        exact ⟨t, ht, List.mem_cons_of_mem _ hmem⟩
      · rw [seen_cons hn] at h
        obtain ⟨t, ht, hmem⟩ := ih h
        exact ⟨t, ht, List.mem_cons_of_mem n hmem⟩

/-- A counter that counted `k` results is zero when `k` is a multiple of `2 ^ 32`. -/
theorem ofNat_eq_zero_iff (k : ℕ) : UInt32.ofNat k = 0 ↔ 2 ^ 32 ∣ k := by
  rw [← UInt32.toNat_inj, UInt32.toNat_ofNat', Nat.dvd_iff_mod_eq_zero]
  rfl

theorem updateResults_apply (t : TType) (res : Results) (c : Counter) :
    updateResults t res c = res c + if counterOf t = some c then 1 else 0 := by
  unfold updateResults
  cases hc : counterOf t with
  | none => simp
  | some c' =>
      by_cases heq : c = c'
      · subst heq
        simp
      · have hne : ¬ c' = c := fun h => heq h.symm
        simp [Function.update_of_ne heq, hne]

end Counting

end EDDTs.TstTest
