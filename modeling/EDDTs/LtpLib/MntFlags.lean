import EDDTs.Boards.Resm
import Mathlib.Data.List.MinMax

/-!
# Mount flags of a path

`tst_path_has_mnt_flags` (`lib/tst_path_has_mnt_flags.c`) chooses an entry of `/proc/mounts` by
comparing texts. The mount that contains a path is the one of the longest mount point that is
the path or a directory above it; of several mounts there, the last one is seen.
-/

namespace EDDTs.LtpLib

open Library Boards

/-- The members of `struct mntent` that are read. -/
structure Mntent where
  mntFsname : Text
  mntDir : Text
  mntOpts : Text
  deriving DecidableEq, Repr

/-- An option ends where the text does, at its value, or at the next one. -/
def optionEnds : Text → Bool
  | [] => true
  | c :: _ => c = '=' || c = ','

/-- The search of `hasmntopt` from a place in the options; `first` tells that an option
begins there. -/
def findOption (opt : Text) : Bool → Text → Bool
  | first, [] => first && opt.isPrefixOf [] && optionEnds []
  | first, c :: rest =>
      (first && opt.isPrefixOf (c :: rest) && optionEnds ((c :: rest).drop opt.length)) ||
        findOption opt (c = ',') rest

/-- Whether `hasmntopt` finds the option. -/
def hasmntopt (mnt : Mntent) (opt : Text) : Bool := findOption opt true mnt.mntOpts

/-- The inner loop: how many of the flags an entry has. -/
def countFlags (flags : List Text) (mnt : Mntent) : ℕ := flags.countP (hasmntopt mnt ·)

/-- The body of the loop over the entries, on `prefix_max` and `flags_matched`. -/
def mntStep (path : Text) (flags : List Text) (state : ℕ × ℕ) (mnt : Mntent) : ℕ × ℕ :=
  if mnt.mntFsname = txt "rootfs" then state
  else if mnt.mntDir.isPrefixOf path = true ∧ state.1 < mnt.mntDir.length then
    (mnt.mntDir.length, countFlags flags mnt)
  else state

/-- What the system calls answer: the temporary directory, whether a path exists, and the
entries of `/proc/mounts` if it can be opened. -/
structure MntSystem where
  tmpdir : Text
  exist : Text → Bool
  mounts : Option (List Mntent)

/-- `tst_path_has_mnt_flags_`: the result, or the message with which `tst_brkm` ends the
test. -/
def tstPathHasMntFlags (sys : MntSystem) (path : Option Text) (flags : List Text) :
    Except Message ℕ :=
  let path := path.getD sys.tmpdir
  if sys.exist path = false then
    .error ⟨.brok, txt "tst_path_has_mnt_flags: path " ++ path ++ txt " doesn't exist", true⟩
  else
    match sys.mounts with
    | none =>
        .error ⟨.brok, txt "tst_path_has_mnt_flags: failed to open /proc/mounts", true⟩
    | some table => .ok (table.foldl (mntStep path flags) (0, 0)).2

/-! ### The entry that is chosen, and the one that contains the path -/

/-- The entries that the loop looks at: not the root file system of the kernel, and with a
mount point whose text begins the path. -/
def Candidate (path : Text) (mnt : Mntent) : Prop :=
  mnt.mntFsname ≠ txt "rootfs" ∧ mnt.mntDir <+: path ∧ mnt.mntDir ≠ []

instance (path : Text) (mnt : Mntent) : Decidable (Candidate path mnt) :=
  inferInstanceAs (Decidable (_ ∧ _ ∧ _))

/-- The first of the candidates with the longest mount point. -/
def chosen (path : Text) (table : List Mntent) : Option Mntent :=
  (table.filter (Candidate path ·)).argmax (·.mntDir.length)

/-- The directory is the path, or above it. -/
def IsAncestor (dir path : Text) : Prop :=
  dir = path ∨ dir = txt "/" ∨ (dir ≠ [] ∧ dir ++ txt "/" <+: path)

instance (dir path : Text) : Decidable (IsAncestor dir path) :=
  inferInstanceAs (Decidable (_ ∨ _ ∨ _))

/-- The mount that contains a path: the last of those with the longest mount point. -/
def containing (path : Text) (table : List Mntent) : Option Mntent :=
  (table.filter (IsAncestor ·.mntDir path)).reverse.argmax (·.mntDir.length)

/-- An entry that may not be there has the option. -/
def hasFlag (mnt : Option Mntent) (flag : Text) : Bool := mnt.any (hasmntopt · flag)

section Chosen

variable {path : Text} {flags : List Text} {mnt : Mntent}

theorem mntStep_candidate (h : Candidate path mnt) (state : ℕ × ℕ) :
    mntStep path flags state mnt =
      if state.1 < mnt.mntDir.length then (mnt.mntDir.length, countFlags flags mnt)
      else state := by
  rw [mntStep, if_neg h.1]
  simp only [h.2.1, true_and, List.isPrefixOf_iff_prefix]

theorem mntStep_other (h : ¬ Candidate path mnt) (state : ℕ × ℕ) :
    mntStep path flags state mnt = state := by
  unfold mntStep
  split_ifs with hroot hbegins
  · rfl
  · refine absurd ⟨hroot, List.isPrefixOf_iff_prefix.mp hbegins.1, ?_⟩ h
    intro hnil
    rw [hnil] at hbegins
    exact absurd hbegins.2 (Nat.not_lt_zero _)
  · rfl

/-- One more candidate is chosen if it is longer than the one before. -/
theorem chosen_append_candidate (h : Candidate path mnt) (table : List Mntent) :
    chosen path (table ++ [mnt]) =
      match chosen path table with
      | none => some mnt
      | some best => if best.mntDir.length < mnt.mntDir.length then some mnt else some best := by
  have hone : [mnt].filter (Candidate path ·) = [mnt] := by simp [h]
  rw [chosen, List.filter_append, hone, List.argmax_concat, ← chosen]
  cases chosen path table <;> rfl

theorem chosen_append_other (h : ¬ Candidate path mnt) (table : List Mntent) :
    chosen path (table ++ [mnt]) = chosen path table := by
  have hnone : [mnt].filter (Candidate path ·) = [] := by simp [h]
  rw [chosen, List.filter_append, hnone, List.append_nil, ← chosen]

/-- What the loop has kept of the entry it has chosen. -/
def kept (flags : List Text) : Option Mntent → ℕ × ℕ
  | none => (0, 0)
  | some mnt => (mnt.mntDir.length, countFlags flags mnt)

/-- The loop, by induction on the entries it has read: it keeps the first of the longest. -/
theorem foldl_mntStep (table : List Mntent) :
    table.foldl (mntStep path flags) (0, 0) = kept flags (chosen path table) := by
  induction table using List.reverseRecOn with
  | nil => rfl
  | append_singleton table mnt ih =>
      rw [List.foldl_append, ih, List.foldl_cons, List.foldl_nil]
      by_cases hmnt : Candidate path mnt
      · have hpos : 0 < mnt.mntDir.length := List.length_pos_of_ne_nil hmnt.2.2
        rw [mntStep_candidate hmnt, chosen_append_candidate hmnt]
        cases chosen path table with
        | none => simp [kept, hpos]
        | some best =>
            by_cases hlonger : best.mntDir.length < mnt.mntDir.length
            · simp [kept, hlonger]
            · simp [kept, hlonger]
      · rw [mntStep_other hmnt, chosen_append_other hmnt]

/-- The flags are counted on the chosen entry. -/
theorem tstPathHasMntFlags_eq {sys : MntSystem} {table : List Mntent}
    (hexist : sys.exist path = true) (hmounts : sys.mounts = some table) :
    tstPathHasMntFlags sys (some path) flags =
      .ok (flags.countP (hasFlag (chosen path table) ·)) := by
  have hcount : ∀ mnt : Option Mntent, (kept flags mnt).2 = flags.countP (hasFlag mnt ·) := by
    intro mnt
    cases mnt with
    | none => simp [kept, hasFlag]
    | some mnt => rfl
  simp only [tstPathHasMntFlags, Option.getD_some, hexist, hmounts, foldl_mntStep, hcount]
  rfl

end Chosen

/-- The flags are counted on the mount that contains the path, whatever the flags are, exactly
when the chosen entry has the same options. -/
theorem tstPathHasMntFlags_iff (sys : MntSystem) (path : Text) (table : List Mntent)
    (mnt : Mntent) (hexist : sys.exist path = true) (hmounts : sys.mounts = some table)
    (hmnt : containing path table = some mnt) :
    (∀ flags, tstPathHasMntFlags sys (some path) flags = .ok (countFlags flags mnt)) ↔
      ∀ flag, hasFlag (chosen path table) flag = hasFlag (containing path table) flag := by
  simp only [tstPathHasMntFlags_eq hexist hmounts, hmnt]
  constructor
  · intro h flag
    have hone := Except.ok.inj (h [flag])
    rw [countFlags, List.countP_singleton, List.countP_singleton] at hone
    cases hflag : hasFlag (chosen path table) flag <;> cases hmntopt : hasmntopt mnt flag <;>
      simp_all [hasFlag]
  · intro h flags
    rw [countFlags]
    exact congrArg Except.ok (List.countP_congr fun flag _ => by rw [h flag]; rfl)

/-- A system with these entries, on which every path exists. -/
def mntSystem (table : List Mntent) : MntSystem := ⟨txt "/tmp", fun _ => true, some table⟩

/-- A root directory and a mount without devices. -/
def twoMounts (dir : String) : List Mntent :=
  [⟨txt "/dev/sda1", txt "/", txt "rw,relatime"⟩, ⟨txt "/dev/sdb1", txt dir, txt "rw,nodev"⟩]

theorem tstPathHasMntFlags_iff_twoMounts :
    tstPathHasMntFlags (mntSystem (twoMounts "/mnt")) (some (txt "/mnt/a")) [txt "nodev"] =
      .ok (countFlags [txt "nodev"] ⟨txt "/dev/sdb1", txt "/mnt", txt "rw,nodev"⟩) :=
  (tstPathHasMntFlags_iff (mntSystem (twoMounts "/mnt")) (txt "/mnt/a") (twoMounts "/mnt")
    ⟨txt "/dev/sdb1", txt "/mnt", txt "rw,nodev"⟩ rfl rfl (by decide)).mpr
    (by
      have hsame : chosen (txt "/mnt/a") (twoMounts "/mnt") =
          containing (txt "/mnt/a") (twoMounts "/mnt") := by decide
      exact fun flag => by rw [hsame]) _

/-- The mount point `/mn` begins the path `/mnt` without being above it; and of two mounts in
one place the hidden one is looked at. -/
theorem tstPathHasMntFlags_wrong :
    (containing (txt "/mnt") (twoMounts "/mn") =
        some ⟨txt "/dev/sda1", txt "/", txt "rw,relatime"⟩ ∧
      countFlags [txt "nodev"] ⟨txt "/dev/sda1", txt "/", txt "rw,relatime"⟩ = 0 ∧
      tstPathHasMntFlags (mntSystem (twoMounts "/mn")) (some (txt "/mnt")) [txt "nodev"] = .ok 1) ∧
    (containing (txt "/tmp") (twoMounts "/") =
        some ⟨txt "/dev/sdb1", txt "/", txt "rw,nodev"⟩ ∧
      countFlags [txt "nodev"] ⟨txt "/dev/sdb1", txt "/", txt "rw,nodev"⟩ = 1 ∧
      tstPathHasMntFlags (mntSystem (twoMounts "/")) (some (txt "/tmp")) [txt "nodev"] = .ok 0) :=
  ⟨⟨by decide, by decide, rfl⟩, by decide, by decide, rfl⟩

end EDDTs.LtpLib
