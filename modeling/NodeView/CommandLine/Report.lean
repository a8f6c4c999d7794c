/-!
# NodeView.CommandLine.Report

How a command tells why it failed: what failed, and what that was caused by.
-/

namespace NodeView.CommandLine

/-- Why a command failed. -/
structure Report where
  /-- What failed. -/
  top : String
  /-- What that was caused by, the nearest cause first. -/
  causes : List String := []
  deriving DecidableEq, Repr

namespace Report

/-- A text with blanks at the start of every line but the first. -/
def indentLines (width : Nat) (text : List Char) : List Char :=
  text.flatMap fun c => if c = '\n' then '\n' :: List.replicate width ' ' else [c]

/-- A number at the right end of a field. -/
def padLeft (width n : Nat) : List Char :=
  let digits := Nat.toDigits 10 n
  List.replicate (width - digits.length) ' ' ++ digits

/-- Causes with numbers from `n` on, each on lines of its own. -/
def numbered (n : Nat) : List String → List Char
  | [] => []
  | cause :: causes =>
    '\n' :: padLeft 5 n ++ [':', ' '] ++ indentLines 7 cause.toList ++ numbered (n + 1) causes

/-- The causes; a single one has no number. -/
def causeChars : List String → List Char
  | [] => []
  | [cause] => "\n\nCaused by:\n    ".toList ++ indentLines 4 cause.toList
  | causes => "\n\nCaused by:".toList ++ numbered 0 causes

/-- The text of a report. -/
def text (report : Report) : String :=
  String.ofList ("Error: ".toList ++ report.top.toList ++ causeChars report.causes ++ ['\n'])

end Report

/-- What running a command shows. -/
structure Outcome where
  exit : Nat
  stdout : String := ""
  stderr : String := ""
  deriving DecidableEq, Repr

namespace Outcome

/-- A command that did its work and wrote some lines. -/
def success (lines : List String) : Outcome := ⟨0, String.join (lines.map (· ++ "\n")), ""⟩

/-- A command that failed. -/
def failure (report : Report) : Outcome := ⟨1, "", report.text⟩

/-- What running a command with a result shows. -/
def ofResult : Except Report (List String) → Outcome
  | .ok lines => success lines
  | .error report => failure report

end Outcome

end NodeView.CommandLine
