import Transparency.Sct

/-!
# The wire form of signed certificate timestamps

Reading accepts version 1 with times that fit an `Instant`, and nothing after the signature when
the timestamp stands alone. Writing needs a log id of 32 bytes.
-/
namespace Transparency.Sct

/-- The latest time, in milliseconds, that an `Instant` can hold. -/
def latestMillis : Nat := 9223372036854775

inductive Fault
  | truncated
  | unsupportedVersion (n : Nat)
  | timeTooLate (millis : Nat)
  | signature (fault : Signature.Fault)
  | trailing (n : Nat)
deriving DecidableEq

def Fault.message? : Fault → Option String
  | truncated => none
  | unsupportedVersion n => some s!"Unsupported SCT version {n}"
  | timeTooLate millis => some s!"Timestamp {millis} does not fit in base::Time."
  | signature fault => fault.message?
  | trailing n => some s!"{n} trailing bytes after SCT."

def readTime (bs : Bytes) : Except Fault (Instant × Bytes) :=
  match Wire.uint? 8 bs with
  | none => .error .truncated
  | some (millis, rest) =>
    if latestMillis < millis then .error (.timeTooLate millis)
    else .ok (.ofMillis (.ofNat millis), rest)

/-- Reads what follows the version. -/
def readBody (bs : Bytes) : Except Fault (Sct × Bytes) :=
  match Bytes.split? 32 bs with
  | none => .error .truncated
  | some (logId, bs) =>
    match readTime bs with
    | .error fault => .error fault
    | .ok (timestamp, bs) =>
      match Wire.vector? 2 bs with
      | none => .error .truncated
      | some (extensions, bs) =>
        match Signature.decode bs with
        | .error fault => .error (.signature fault)
        | .ok (signature, rest) => .ok ({ logId, timestamp, extensions, signature }, rest)

def decode (bs : Bytes) : Except Fault (Sct × Bytes) :=
  match Wire.uint? 1 bs with
  | none => .error .truncated
  | some (n, bs) => if n = version then readBody bs else .error (.unsupportedVersion n)

/-- Reads a timestamp that stands alone. -/
def decodeWhole (bs : Bytes) : Except Fault Sct :=
  match decode bs with
  | .error fault => .error fault
  | .ok (sct, rest) => if rest.isEmpty then .ok sct else .error (.trailing rest.length)

/-! ## In place -/

def takeTime {α : Type} : Wire.Taking Fault α Instant := do
  let saved := (← get).rest
  let millis ← Wire.Taking.uint .truncated 8
  Wire.Taking.restoring saved do
    if latestMillis < millis then throw (.timeTooLate millis)
    return .ofMillis (.ofNat millis)

/-- Takes what follows the version. -/
def takeBody {α : Type} : Wire.Taking Fault α Sct := do
  let logId ← Wire.Taking.fixed .truncated 32
  let timestamp ← takeTime
  let extensions ← Wire.Taking.vector .truncated 2
  let signature ← Signature.take.adapt .signature
  return { logId, timestamp, extensions, signature }

def take {α : Type} : Wire.Taking Fault α Sct := do
  let saved := (← get).rest
  let n ← Wire.Taking.uint .truncated 1
  Wire.Taking.restoring saved do
    unless n = version do throw (.unsupportedVersion n)
    takeBody

/-- Reads a timestamp over one that is there. -/
def receive : Wire.Taking Fault Sct Unit := take.fill

/-- Reads a timestamp that stands alone over one that is there. -/
def receiveWhole (bs : Bytes) : ExceptT Fault (StateM Sct) Unit := do
  let left ← receive.apart bs {}
  unless left.rest.isEmpty do throw (.trailing left.rest.length)
  set left.value

/-! ## Writing -/

def fields (sct : Sct) : List Wire.Field :=
  [.uint 1 version, .fixed sct.logId, sct.timestamp.field, .vector 2 sct.extensions] ++
    sct.signature.fields

/-- A failed encoding writes nothing. -/
def encode (sct : Sct) : Except Halt Wire.Encoding :=
  if sct.logId.length = 32 then (Wire.write sct.fields).map (·.staged) else .ok ⟨[], false⟩

def append (sct : Sct) : Wire.Adding Bool :=
  if sct.logId.length = 32 then Wire.appendStaged (Wire.append sct.fields) else return false

def encodeMessage? (sct : Sct) : Option String :=
  if sct.logId.length = 32 then none
  else some s!"Cannot encode SCT with a {sct.logId.length} byte log id."

end Transparency.Sct
