import EDDTs.Pan.WaitStatus

/-!
# The rts block of a test

What `write_test_start`, `copy_buffered_output` and `write_test_end` print for
the report type `rts`, and the entries of the command collection.
-/

namespace EDDTs.Pan

open Library

/-- `struct coll_entry`, without the link to the next entry. -/
structure CollEntry where
  /-- tag name -/
  name : Text
  /-- command line -/
  cmdline : Text
  /-- `pcnt_f` is not null -/
  pcntF : Bool
  deriving DecidableEq, Repr

/-- The text `write_test_start` prints. -/
def testStartText (cmd : CollEntry) (mystime : Int) : Text :=
  txt "<<<test_start>>>\ntag=" ++ cmd.name ++ txt " stime=" ++ intText mystime ++
    txt "\ncmdline=\"" ++ cmd.cmdline ++
    txt "\"\ncontacts=\"\"\nanalysis=exit\n<<<test_output>>>\n"

/-- The text `write_test_end` prints; `cutime` and `cstime` are the differences
of the two `struct tms`. -/
def testEndText (initStatus : Text) (duration : Int) (termType : Text) (termId : Nat)
    (statLoc : Nat) (cutime cstime : Int) : Text :=
  txt "<<<execution_status>>>\ninitiation_status=\"" ++ initStatus ++
    txt "\"\nduration=" ++ intText duration ++ txt " termination_type=" ++ termType ++
    txt " termination_id=" ++ natText termId ++ txt " corefile=" ++ coreText statLoc ++
    txt "\ncutime=" ++ intText cutime ++ txt " cstime=" ++ intText cstime ++
    txt "\n<<<test_end>>>\n"

/-- The text `copy_buffered_output` prints. The buffer file may be gone; for an
empty file the code looks at the byte before the buffer. -/
def copyBufferedOutput (file : Option Text) (byteBefore : Char) : Text :=
  match file with
  | none => []
  | some contents =>
      let tagOutput := cString contents
      -- make sure the output ends with a newline
      if tagOutput.getLastD byteBefore ≠ '\n' then tagOutput ++ ['\n'] else tagOutput

/-- `run_child`: what a child reports whose `execvp` failed. -/
def execvpFailedText (panname arg name : Text) (errno : Nat) (strerror : Text) : Text :=
  txt "pan(" ++ panname ++ txt "): execvp of '" ++ arg ++ txt "' (tag " ++ name ++
    txt ") failed.  errno:" ++ natText errno ++ txt "  " ++ strerror

/-- The report of a child that did not find its command. -/
def noSuchFile (name : Text) : Text :=
  execvpFailedText (txt "pan") (txt "nosuch") name 2 (txt "No such file or directory")

/-- The line of a command in the fail and tconf command files. -/
def cmdFileLine (cmd : CollEntry) : Text := cmd.name ++ txt " " ++ cmd.cmdline ++ txt "\n"

end EDDTs.Pan
