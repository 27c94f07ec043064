import EDDTs.Library.Strtok
import EDDTs.Library.Text

/-!
# `splitstr`

The tokens that `strtok` finds: the maximal runs of characters outside the
separator set, in order. Leading, trailing and repeated separators give no
empty tokens.
-/

namespace EDDTs.Pan

open Library

/-- `splitstr` from inside a token whose characters so far are `tok`. -/
def splitstrFrom (separator : Text) (tok : Text) : Text → List Text
  | [] => if tok = [] then [] else [tok]
  | c :: str =>
      if c ∈ separator then
        if tok = [] then splitstrFrom separator [] str
        else tok :: splitstrFrom separator [] str
      else splitstrFrom separator (tok ++ [c]) str

/-- `splitstr(str, separator, NULL)`: the elements before the final `NULL`. -/
def splitstr (str separator : Text) : List Text := splitstrFrom separator [] str

/-- The tokens are the runs of characters that are no separators. -/
theorem splitstrFrom_eq_runs {separator tok : Text} (htok : ∀ c ∈ tok, c ∉ separator)
    (str : Text) : splitstrFrom separator tok str = runs (· ∈ separator) (tok ++ str) := by
  induction str generalizing tok with
  | nil =>
      rw [splitstrFrom, List.append_nil]
      split_ifs with hnil
      · rw [hnil, runs_nil]
      · exact (runs_singleton (by simpa using htok) hnil).symm
  | cons c str ih =>
      rw [splitstrFrom]
      split_ifs with hc hnil
      · rw [ih (by simp), hnil]
        exact (runs_cons_of_sep (by simpa using hc) str).symm
      · rw [ih (by simp), runs_append_cons (by simpa using htok) hnil (by simpa using hc),
          List.nil_append]
      · have htok' : ∀ d ∈ tok ++ [c], d ∉ separator :=
          List.forall_mem_append.mpr ⟨htok, List.forall_mem_singleton.mpr hc⟩
        rw [ih htok', List.append_assoc]
        rfl

theorem splitstr_eq_runs (str separator : Text) :
    splitstr str separator = runs (· ∈ separator) str :=
  splitstrFrom_eq_runs (by simp) str

variable {separator str : Text}

/-- A text without separators is its own only token. -/
theorem splitstr_of_forall_not_mem (hne : str ≠ []) (h : ∀ c ∈ str, c ∉ separator) :
    splitstr str separator = [str] := by
  rw [splitstr_eq_runs]
  exact runs_singleton (by simpa using h) hne

/-- The token that a separator ends. -/
theorem splitstr_append_sep {a : Text} (ha : ∀ c ∈ a, c ∉ separator) {c : Char}
    (hc : c ∈ separator) (hne : a ≠ []) (rest : Text) :
    splitstr (a ++ c :: rest) separator = a :: splitstr rest separator := by
  rw [splitstr_eq_runs, splitstr_eq_runs]
  exact runs_append_cons (by simpa using ha) hne (by simpa using hc) rest

/-- Tokens are not empty and have no separator. -/
theorem mem_splitstr {w : Text} (h : w ∈ splitstr str separator) :
    w ≠ [] ∧ ∀ c ∈ w, c ∉ separator := by
  rw [splitstr_eq_runs] at h
  simpa using mem_runs h

/-- A text with one token is that token between separators. -/
theorem splitstr_eq_singleton_iff {w : Text} :
    splitstr str separator = [w] ↔ w ≠ [] ∧ (∀ c ∈ w, c ∉ separator) ∧
      ∃ a b, (∀ c ∈ a ++ b, c ∈ separator) ∧ str = a ++ (w ++ b) := by
  rw [splitstr_eq_runs, runs_eq_singleton_iff]
  simp only [decide_eq_true_eq, decide_eq_false_iff_not]

end EDDTs.Pan
