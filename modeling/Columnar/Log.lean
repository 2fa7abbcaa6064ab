import Columnar.Bytes

/-!
# Log messages

Operations return the messages they would log; what is shown depends on a threshold that the
caller holds.  Warnings and errors are always shown, the other levels from the threshold on.
-/

namespace Columnar.Log

/-- The severity of a message, by its code. -/
structure Level where
  code : Int32
deriving DecidableEq, Repr

namespace Level

def trace : Level := ⟨0⟩
def debug : Level := ⟨1⟩
def info : Level := ⟨2⟩
def warn : Level := ⟨3⟩
def error : Level := ⟨4⟩

/-- The name of a level, five characters long. -/
def label (level : Level) : String :=
  match level.code.toInt with
  | 0 => "TRACE"
  | 1 => "DEBUG"
  | 2 => "INFO "
  | 3 => "WARN "
  | 4 => "ERROR"
  | _ => "?????"

end Level

/-- A message with its severity. -/
structure Entry where
  level : Level
  message : Bytes
deriving DecidableEq, Repr

/-- Whether a message is shown under a threshold. -/
def Entry.isShown (threshold : Level) (entry : Entry) : Bool :=
  entry.level = .warn || entry.level = .error || threshold.code ≤ entry.level.code

/-- The part of a path behind its last slash. A path ends at a zero byte. -/
def baseName (path : Bytes) : Bytes :=
  ((path.takeWhile (· ≠ 0)).reverse.takeWhile (· ≠ 47)).reverse

/-- A message as a line: its level, the place in a file that it comes from, and its text. -/
def line (path : Bytes) (lineNumber : Int32) (entry : Entry) : Bytes :=
  Bytes.ofString entry.level.label ++ Bytes.ofString " " ++ baseName path ++
    Bytes.ofString s!":{lineNumber.toInt} " ++ entry.message ++ Bytes.ofString "\n"

end Columnar.Log
