/-!
# The journal

Messages have a severity; verbose messages have a level instead, whose negation serves as their
severity. Two thresholds decide what is written, and a fatal message ends the program.
-/
namespace Transparency

/-- A broken assumption, which ends the program with this message. -/
structure Halt where
  message : String
deriving DecidableEq, Repr

namespace Journal

abbrev Severity := Int32

def info : Severity := 0
def warning : Severity := 1
def error : Severity := 2
def fatal : Severity := 3

/-! ## Thresholds -/

structure Levels where
  minimum : Int32 := 0
  verbosity : Int32 := 0
deriving DecidableEq

/-- No minimum lies above `fatal`. -/
def Levels.setMinimum (l : Levels) (m : Int32) : Levels :=
  { l with minimum := if m < fatal then m else fatal }

def Levels.setVerbosity (l : Levels) (v : Int32) : Levels :=
  { l with verbosity := v }

inductive Setting
  | minimum (m : Int32)
  | verbosity (v : Int32)
deriving DecidableEq

def Levels.apply (l : Levels) : Setting → Levels
  | .minimum m => l.setMinimum m
  | .verbosity v => l.setVerbosity v

/-- The thresholds after settings, of which each one replaces what was set before. -/
def Levels.applyAll (l : Levels) (settings : List Setting) : Levels := settings.foldl Levels.apply l

/-- A negative minimum admits verbose messages up to its negation. -/
def Levels.effectiveVerbosity (l : Levels) : Int32 :=
  if l.verbosity < -l.minimum then -l.minimum else l.verbosity

inductive Channel
  | severity (s : Severity)
  | verbose (level : Int32)
deriving DecidableEq

def Channel.toSeverity : Channel → Severity
  | severity s => s
  | verbose level => -level

def Levels.admits (l : Levels) : Channel → Bool
  | .severity s => l.minimum ≤ s
  | .verbose level => level ≤ l.effectiveVerbosity

/-! ## Messages -/

structure Message where
  severity : Severity
  text : String
deriving DecidableEq

/-- A message whose text is made only when it is written, and may break an assumption then. -/
structure Note where
  channel : Channel
  text : Except Halt String

def Note.verbose (text : String) : Note := ⟨.verbose 1, .ok text⟩
def Note.error (text : String) : Note := ⟨.severity Journal.error, .ok text⟩

/-- The messages written at `l`, up to the first note whose text breaks an assumption. -/
def written (l : Levels) : List Note → List Message × Option Halt
  | [] => ([], none)
  | note :: notes =>
    if l.admits note.channel then
      match note.text with
      | .error halt => ([], some halt)
      | .ok text =>
        let (messages, halt) := written l notes
        (⟨note.channel.toSeverity, text⟩ :: messages, halt)
    else written l notes

def severityName (s : Severity) : String :=
  match s.toInt with
  | 0 => "INFO"
  | 1 => "WARNING"
  | 2 => "ERROR"
  | 3 => "FATAL"
  | _ => "UNKNOWN"

/-- The last component of a path. -/
def baseName (path : String) : String :=
  String.ofList ((path.toList.reverse.takeWhile (· ≠ '/')).reverse)

/-- What precedes the text of a message from a line of a file. -/
def heading (s : Severity) (file : String) (line : Int32) : String :=
  let name := if s < 0 then "VERBOSE" ++ toString (-s).toInt else severityName s
  "[" ++ name ++ ":" ++ baseName file ++ "(" ++ toString line.toInt ++ ")] "

/-! ## Statements -/

inductive Comparison
  | eq
  | ne
  | lt
  | le
  | gt
  | ge
deriving DecidableEq

def Comparison.sign : Comparison → String
  | eq => "=="
  | ne => "!="
  | lt => "<"
  | le => "<="
  | gt => ">"
  | ge => ">="

def Comparison.holds (c : Comparison) (a b : Int) : Bool :=
  match c with
  | eq => a == b
  | ne => a != b
  | lt => a < b
  | le => a ≤ b
  | gt => b < a
  | ge => b ≤ a

/-- What a program says to the journal. -/
inductive Statement
  | log (channel : Channel) (condition : Bool) (text : String)
  /-- An assumption, as it is written in the program. -/
  | assume (holds : Bool) (condition : String) (text : String)
  | compare (c : Comparison) (left right : String) (a b : Int) (text : String)
  /-- A message that no threshold holds back. -/
  | direct (s : Severity) (text : String)

def unmet (condition : String) : String := "Check failed: " ++ condition ++ ". "

/-- The message of a statement, if it makes one. -/
def Statement.message? (l : Levels) : Statement → Option Message
  | log channel condition text =>
    if l.admits channel && condition then some ⟨channel.toSeverity, text⟩ else none
  | assume holds condition text => if holds then none else some ⟨fatal, unmet condition ++ text⟩
  | compare c left right a b text =>
    if c.holds a b then none
    else
      some ⟨fatal, s!"Check failed: {left} {c.sign} {right} ({a} vs. {b})" ++ text⟩
  | direct s text => some ⟨s, text⟩

/-- Whether the program goes on after a message. -/
def Message.survivable (m : Message) : Bool := m.severity ≠ fatal

end Journal

/-- The assumption that a place is never reached. -/
def Halt.unreachable : Halt := ⟨Journal.unmet "false"⟩

/-- The assumption that `condition` holds, named by its text. -/
def Halt.unless (holds : Bool) (condition : String) : Except Halt Unit :=
  if holds then .ok () else .error ⟨Journal.unmet condition⟩

end Transparency
