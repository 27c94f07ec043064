import EDDTs.Pan.TagReport

/-!
# The reporters

`reporter.c`: what happens to the tables of a test when its end is seen, and the
report over all tags. The scanner keeps the tables under the tag and reports at
the end; the immediate scanner reports at once.
-/

namespace EDDTs.Pan

open Library

/-- `set_scanner` and `set_iscanner`. -/
inductive ReporterMode where
  | scanner
  | iscanner
  deriving DecidableEq, Repr

/-- What the reporters keep and have printed: the table of all tags, the counter
of records without a tag, and the two output streams. -/
structure Reports where
  alltags : Table
  notag : Nat
  stdout : List Printed
  stderr : Text

/-- A pointer that `sym_get` returns is not null. -/
def isData : Option Table → Bool
  | none => false
  | some (.leaf none) => false
  | some _ => true

/-- The tag of a test: the one among its keys, or a new one that is put there. -/
def tagOfKeys (notag : Nat) (keys : Table) : Text × Table × Nat × Text :=
  match symText keys (txt "tag") with
  | some tag => (tag, keys, notag, [])
  | none =>
      let tagname := txt "no_tag_" ++ natText notag
      (tagname, putText keys (txt "tag") tagname, notag + 1,
        txt "No TAG key!  Using " ++ tagname ++ txt "\n")

/-- The table of a test with its keys under `_keys`. -/
def withKeys (ctag keys : Table) : Table :=
  (treePut ctag (keyPath (txt "_keys")) keys false).2

/-- `scanner_test_end` for tables that are not null. The keys are put into the
tag's table before the tag is looked up, by reference, so a tag that is made up
here is found in there as well. `none` is the null node that `sym_get` reads for
a tag without a component. -/
def scannerTestEnd (r : Reports) (ctag keys : Table) : Option Reports :=
  let (tag, keys, notag, err) := tagOfKeys r.notag keys
  let ctag := withKeys ctag keys
  let r := { r with notag := notag, stderr := r.stderr ++ err }
  let put := { r with alltags := (treePut r.alltags (keyPath tag) ctag true).2 }
  if keyPath tag = [] then none
  else if isData (r.alltags.get (keyPath tag)) then
    -- a duplicate whose initiation failed is thrown away
    if symText keys (txt "initiation_status") = some (txt "ok") then some put else some r
  else some put

/-- `iscanner_test_end`. -/
def iscannerTestEnd (extended : Bool) (r : Reports) (ctag keys : Table) : Option Reports :=
  match tagReport extended (withKeys ctag keys) keys with
  | none => none
  | some (printed, _) => some { r with stdout := r.stdout ++ printed }

/-- `test_end`. -/
def testEnd (mode : ReporterMode) (extended : Bool) (r : Reports) :
    Option Table → Option Table → Option Reports
  | some ctag, some keys =>
      match mode with
      | .scanner => scannerTestEnd r ctag keys
      | .iscanner => iscannerTestEnd extended r ctag keys
  | _, _ => some r

/-- A string that is copied into a key buffer with something appended. -/
def fitsKey (tag suffix : Text) : Bool := tag.length + suffix.length < keySize

/-- The loop of `scanner_reporter` that looks for a start time: the table with
the date, or none where a key does not fit its buffer. `date` is `strftime` of
the time that the text is read as. -/
def putDate (date : Text → Text) (tags : Table) : List Text → Option Table
  | [] => some tags
  | tag :: rest =>
      let key := tag ++ txt ",_keys,stime"
      if ¬ fitsKey tag (txt ",_keys,stime") then none
      else if isData (tags.get (keyPath key)) then
        some (putText tags (txt "_RTS,date") (date ((symText tags key).getD [])))
      else putDate date tags rest

/-- The loop of `scanner_reporter` over the tags: the calls of `tag_report`, with
the tag's table and its keys. -/
def reportCalls (tags : Table) : List Text → Option (List (Table × Table))
  | [] => some []
  | tag :: rest =>
      if tag = txt "_RTS" then reportCalls tags rest
      else if ¬ fitsKey tag (txt ",_keys") then none
      else
        match tags.get (keyPath (tag ++ txt ",_keys")) with
        | some (.dir es) =>
            match tags.get (keyPath tag) with
            | some ctag => (reportCalls tags rest).map fun calls => (ctag, .dir es) :: calls
            | none => reportCalls tags rest
        -- a string is no table of keys
        | some (.leaf (some _)) => none
        -- no keys: the function returns
        | _ => some []

/-- `scanner_reporter`, up to what the calls of `tag_report` print. For a table
without a tag the first key is read from an uninitialised variable. -/
def scannerReporter (date : Text → Text) (tags : Table) : Option (List (Table × Table)) :=
  if tags.keys = [] then none
  else
    match putDate date tags tags.keys with
    | none => none
    | some tags' => reportCalls tags' tags.keys

/-- What the report of `ltp-scanner` prints behind its header. -/
def reporter (mode : ReporterMode) (extended : Bool) (date : Text → Text) (tags : Table) :
    Option (List Printed) :=
  match mode with
  | .iscanner => some []
  | .scanner =>
      match scannerReporter date tags with
      | none => none
      | some calls =>
          (calls.mapM fun call => tagReport extended call.1 call.2).map fun reports =>
            reports.flatMap Prod.fst

end EDDTs.Pan
