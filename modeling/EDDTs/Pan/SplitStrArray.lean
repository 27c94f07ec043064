import EDDTs.Library.Checked
import EDDTs.Pan.SplitStr

/-!
# The array of `splitstr`

`splitstr` stores the tokens that `strtok` finds in an array with room for 20 of them. It asks
for 20 more whenever the array is full, and ends the array by `NULL`.
-/

namespace EDDTs.Pan

open Library

/-! ### The function -/

/-- What an element of the array holds. -/
inductive ArgSlot where
  | garbage
  | null
  | token (t : Text)
  deriving DecidableEq, Repr

/-- Whether memory is given to `strdup`, to `malloc` and to `realloc` for a number of elements. -/
structure Memory where
  strdup : Bool
  malloc : Bool
  realloc : ℤ → Bool

/-- The function does not return: something has no defined result, or `exit(1)` is called. -/
inductive NoReturn where
  | undefined
  | exited
  deriving DecidableEq, Repr

structure ArgArray where
  slots : List ArgSlot
  numToks : ℤ
  maxToks : ℤ
  deriving DecidableEq, Repr

namespace ArgArray

/-- `arg_array[i] = v` -/
def store (a : ArgArray) (i : ℤ) (v : ArgSlot) : Except NoReturn ArgArray :=
  if 0 ≤ i ∧ i < a.slots.length then .ok { a with slots := a.slots.set i.toNat v }
  else .error .undefined

/-- An array that is full gets 20 more elements. -/
def grow (mem : Memory) (a : ArgArray) : Except NoReturn ArgArray :=
  if a.numToks = a.maxToks then
    if Fits 32 (a.maxToks + 20) then
      if mem.realloc (a.maxToks + 20) then
        .ok ⟨a.slots ++ List.replicate 20 .garbage, a.numToks, a.maxToks + 20⟩
      else .error .exited
    else .error .undefined
  else .ok a

/-- The body of the loop. -/
def push (mem : Memory) (curTok : Text) (a : ArgArray) : Except NoReturn ArgArray :=
  (a.store a.numToks (.token curTok)).bind fun a =>
    if Fits 32 (a.numToks + 1) then grow mem { a with numToks := a.numToks + 1 }
    else .error .undefined

/-- The loop that makes the spaces left `NULL`, with their number. -/
def clear : ℕ → ℤ → ArgArray → Except NoReturn ArgArray
  | 0, _, a => .ok a
  | left + 1, i, a => (a.store i .null).bind (clear left (i + 1))

end ArgArray

/-- The array that is returned, and what `argcount` is set to. -/
structure SplitResult where
  argArray : Option (List ArgSlot)
  argcount : ℤ
  deriving DecidableEq, Repr

/-- What follows the loop. -/
def ArgArray.finish (a : ArgArray) : Except NoReturn SplitResult :=
  (a.store a.numToks .null).bind fun a =>
    (a.clear (a.maxToks - (a.numToks + 1)).toNat (a.numToks + 1)).map fun a =>
      ⟨some a.slots, a.numToks⟩

/-- `splitstr` -/
def splitstrArray (mem : Memory) (str separator : Option Text) : Except NoReturn SplitResult :=
  match str with
  | none => .ok ⟨none, 0⟩
  | some str =>
      if mem.strdup = false ∨ mem.malloc = false then .ok ⟨none, 0⟩
      else
        (strtokLoop (· ∈ separator.getD (txt " \t")) (ArgArray.push mem) str
          ⟨List.replicate 20 .garbage, 0, 20⟩).bind ArgArray.finish

/-! ### The array -/

/-- All allocations succeed. -/
structure Memory.Suffices (mem : Memory) : Prop where
  strdup : mem.strdup = true
  malloc : mem.malloc = true
  realloc : ∀ n, mem.realloc n = true

/-- The array holds the tokens so far, and has room for at least one more. -/
structure Filled (toks : List Text) (a : ArgArray) : Prop where
  slots : a.slots = toks.map .token ++ List.replicate (20 - toks.length % 20) .garbage
  numToks : a.numToks = toks.length
  maxToks : a.maxToks = toks.length + (20 - toks.length % 20 : ℕ)

/-- The number of tokens for which the next growth overflows. -/
def tokLimit : ℕ := 2147483640

section Filled

variable {mem : Memory} {toks : List Text} {a : ArgArray}

theorem store_append {front : List ArgSlot} {old : ArgSlot} {back : List ArgSlot}
    (hslots : a.slots = front ++ old :: back) {i : ℤ} (hi : i = front.length) (v : ArgSlot) :
    a.store i v = .ok { a with slots := front ++ v :: back } := by
  subst hi
  rw [ArgArray.store, if_pos (by simp [hslots]), hslots, Int.toNat_natCast,
    List.set_append_right _ _ le_rfl, Nat.sub_self, List.set_cons_zero]

/-- The array after the store, before it grows. -/
theorem Filled.store (h : Filled toks a) (hlt : toks.length < tokLimit) (tok : Text) :
    ∃ left, 20 - toks.length % 20 = left + 1 ∧
      a.push mem tok = ArgArray.grow mem
        ⟨(toks ++ [tok]).map .token ++ List.replicate left .garbage, toks.length + 1,
          a.maxToks⟩ := by
  obtain ⟨left, hleft⟩ : ∃ left, 20 - toks.length % 20 = left + 1 :=
    ⟨19 - toks.length % 20, by omega⟩
  have hslots := h.slots
  have hlimit : tokLimit = 2147483640 := rfl
  have hfits : Fits 32 ((toks.length : ℤ) + 1) := ⟨by omega, by omega⟩
  rw [hleft, List.replicate_succ] at hslots
  refine ⟨left, hleft, ?_⟩
  rw [ArgArray.push, store_append hslots (by rw [h.numToks, List.length_map])]
  simp only [Except.bind, h.numToks, if_pos hfits, List.map_append, List.map_singleton,
    List.append_assoc, List.singleton_append]

theorem grow_full (hmem : mem.Suffices) (hfull : a.numToks = a.maxToks) :
    a.grow mem = if Fits 32 (a.maxToks + 20) then
        .ok ⟨a.slots ++ List.replicate 20 .garbage, a.numToks, a.maxToks + 20⟩
      else .error .undefined := by
  rw [ArgArray.grow, if_pos hfull, if_pos (hmem.realloc _)]

/-- One turn of the loop. -/
theorem Filled.push (h : Filled toks a) (hmem : mem.Suffices)
    (hlt : toks.length < tokLimit) (tok : Text) :
    if toks.length + 1 < tokLimit then
      ∃ a', a.push mem tok = .ok a' ∧ Filled (toks ++ [tok]) a'
    else a.push mem tok = .error .undefined := by
  obtain ⟨left, hleft, hpush⟩ := h.store hlt tok
  have hlimit : tokLimit = 2147483640 := rfl
  have hlength : (toks ++ [tok]).length = toks.length + 1 := List.length_append
  have hmax := h.maxToks
  rw [hpush]
  cases left with
  | zero =>
      -- the array is full, and grows unless the number of its elements is too large
      rw [grow_full hmem (by dsimp only; omega)]
      dsimp only
      split_ifs with hnext hfits hfits
      · refine ⟨_, rfl, ?_, ?_, ?_⟩
        · rw [hlength, show 20 - (toks.length + 1) % 20 = 20 by omega]
          exact congrArg (· ++ _) (List.append_nil _)
        · rw [hlength]
          rfl
        · rw [hlength]
          dsimp only
          omega
      · exact absurd ⟨by omega, by omega⟩ hfits
      · exact absurd hfits.2 (by omega)
      · rfl
  | succ left =>
      rw [if_pos (by omega), ArgArray.grow, if_neg (by dsimp only; omega)]
      refine ⟨_, rfl, ?_, ?_, ?_⟩
      · rw [hlength, show 20 - (toks.length + 1) % 20 = left + 1 by omega]
      · rw [hlength]
        rfl
      · rw [hlength]
        dsimp only
        omega

/-- The loop stores every token, unless there are too many. -/
theorem Filled.foldlM (hmem : mem.Suffices) (rest : List Text) (h : Filled toks a)
    (hlt : toks.length < tokLimit) :
    if (toks ++ rest).length < tokLimit then
      ∃ a', rest.foldlM (fun a tok => a.push mem tok) a = .ok a' ∧ Filled (toks ++ rest) a'
    else rest.foldlM (fun a tok => a.push mem tok) a = .error .undefined := by
  induction rest generalizing toks a with
  | nil =>
      rw [List.append_nil, if_pos hlt]
      exact ⟨a, rfl, h⟩
  | cons tok rest ih =>
      have hstep := h.push hmem hlt tok
      have hlength : (toks ++ [tok]).length = toks.length + 1 := List.length_append
      have hcount : (toks ++ tok :: rest).length = toks.length + 1 + rest.length := by
        rw [List.length_append, List.length_cons]
        omega
      rw [List.foldlM_cons]
      by_cases hnext : toks.length + 1 < tokLimit
      · rw [if_pos hnext] at hstep
        obtain ⟨a', hpush, hfilled⟩ := hstep
        rw [hpush, List.append_cons]
        exact ih hfilled (hlength ▸ hnext)
      · rw [if_neg hnext] at hstep
        rw [if_neg (by omega), hstep]
        rfl

/-- The spaces left become `NULL`. -/
theorem clear_eq (front : List ArgSlot) (left : ℕ) (numToks maxToks : ℤ) :
    ArgArray.clear left front.length ⟨front ++ List.replicate left .garbage, numToks, maxToks⟩ =
      .ok ⟨front ++ List.replicate left .null, numToks, maxToks⟩ := by
  induction left generalizing front with
  | zero => rfl
  | succ left ih =>
      have hrest := ih (front ++ [.null])
      rw [List.length_append, List.append_assoc, List.append_assoc] at hrest
      rw [ArgArray.clear, store_append rfl rfl]
      exact hrest

/-- The terminator has a place in the array. -/
theorem Filled.finish (h : Filled toks a) :
    a.finish = .ok ⟨some (toks.map .token ++ List.replicate (20 - toks.length % 20) .null),
      toks.length⟩ := by
  obtain ⟨left, hleft⟩ : ∃ left, 20 - toks.length % 20 = left + 1 :=
    ⟨19 - toks.length % 20, by omega⟩
  obtain ⟨slots, numToks, maxToks⟩ := a
  obtain ⟨rfl, rfl, rfl⟩ := h
  have hclear := clear_eq (toks.map ArgSlot.token ++ [.null]) left toks.length
    (toks.length + (20 - toks.length % 20 : ℕ))
  rw [List.length_append, List.length_map, List.append_assoc, List.append_assoc] at hclear
  have hrest : ((toks.length : ℤ) + (left + 1 : ℕ) - (toks.length + 1)).toNat = left := by omega
  rw [hleft] at hclear ⊢
  rw [ArgArray.finish, store_append rfl (by rw [List.length_map])]
  dsimp only [Except.bind]
  rw [hrest]
  exact congrArg (Except.map _) hclear

end Filled

section Result

variable {mem : Memory}

/-- The array and the count for few enough tokens; for more the growth overflows. -/
theorem splitstrArray_eq (hmem : mem.Suffices) (str : Text) (separator : Option Text) :
    let toks := runs (· ∈ separator.getD (txt " \t")) str
    splitstrArray mem (some str) separator =
      if toks.length < tokLimit then
        .ok ⟨some (toks.map .token ++ List.replicate (20 - toks.length % 20) .null), toks.length⟩
      else .error .undefined := by
  intro toks
  have hstart : Filled [] ⟨List.replicate 20 .garbage, 0, 20⟩ := ⟨rfl, rfl, rfl⟩
  have hloop := hstart.foldlM hmem toks (by decide)
  rw [List.nil_append] at hloop
  rw [splitstrArray, if_neg (by simp [hmem.strdup, hmem.malloc]), strtokLoop_eq]
  split_ifs at hloop ⊢ with hlt
  · obtain ⟨a, hfold, hfilled⟩ := hloop
    rw [hfold]
    exact hfilled.finish
  · rw [hloop]
    rfl

end Result

/-- For every string with few enough tokens, and every set of separators: the array holds the
runs of characters that are no separators and then `NULL` up to its end, and the count is their
number. No element is stored outside the array, whose size is always a multiple of 20. -/
theorem splitstrArray_tokens (mem : Memory) (hmem : mem.Suffices) (str : Text)
    (separator : Option Text)
    (hfew : (runs (· ∈ separator.getD (txt " \t")) str).length < tokLimit) :
    let toks := runs (· ∈ separator.getD (txt " \t")) str
    splitstrArray mem (some str) separator =
      .ok ⟨some (toks.map .token ++ List.replicate (20 - toks.length % 20) .null),
        toks.length⟩ :=
  (splitstrArray_eq hmem str separator).trans (if_pos hfew)

theorem runs_letters (n : ℕ) :
    runs (· ∈ txt " \t") ([' '].intercalate (List.replicate n ['a'])) =
      List.replicate n ['a'] := by
  refine runs_intercalate (by decide) (fun p hp => ?_) (fun p hp => ?_) <;>
    obtain rfl := List.eq_of_mem_replicate hp <;> decide

/-- The array has grown once for the 25 tokens. -/
theorem splitstrArray_tokens_letters :
    splitstrArray ⟨true, true, fun _ => true⟩
        (some ([' '].intercalate (List.replicate 25 ['a']))) none =
      .ok ⟨some (List.replicate 25 (.token ['a']) ++ List.replicate 15 .null), 25⟩ := by
  have hruns := runs_letters 25
  have htokens := splitstrArray_tokens ⟨true, true, fun _ => true⟩ ⟨rfl, rfl, fun _ => rfl⟩
    ([' '].intercalate (List.replicate 25 ['a'])) none
  rw [Option.getD_none, hruns] at htokens
  exact htokens (by decide)

/-- With 2147483640 tokens the size of the array overflows. -/
theorem splitstrArray_overflow :
    splitstrArray ⟨true, true, fun _ => true⟩
      (some ([' '].intercalate (List.replicate 2147483640 ['a']))) none = .error .undefined := by
  refine (splitstrArray_eq ⟨rfl, rfl, fun _ => rfl⟩ _ none).trans (if_neg ?_)
  rw [Option.getD_none, runs_letters, List.length_replicate]
  decide

end EDDTs.Pan
