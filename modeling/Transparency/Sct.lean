import Transparency.Time
import Transparency.Signature
import Transparency.Wire.Output

/-!
# Signed certificate timestamps

A log promises in a signed certificate timestamp to add an entry to its tree. The wire form does
not tell where the timestamp was found nor what its log is called.
-/
namespace Transparency

/-- Where a timestamp was found; `unspecified` before any place was searched. -/
inductive Origin
  | embedded
  | tlsExtension
  | ocspResponse
  | unspecified
deriving DecidableEq, Inhabited

namespace Origin

def code : Origin → Nat
  | embedded => 0
  | tlsExtension => 1
  | ocspResponse => 2
  | unspecified => 3

def ofCode? (n : Nat) : Option Origin :=
  [embedded, tlsExtension, ocspResponse, unspecified].find? fun o => o.code = n

def name : Origin → Except Halt String
  | embedded => .ok "embedded_in_certificate"
  | tlsExtension => .ok "tls_extension"
  | ocspResponse => .ok "ocsp"
  | unspecified => .error .unreachable

end Origin

/-- The only version of the structures. -/
def version : Nat := 0

/-- Milliseconds as a number of eight bytes; those before 1970 wrap. -/
def Instant.field (t : Instant) : Wire.Field :=
  .uint 8 (t.since .epoch).millis.toUInt64.toNat

structure Sct where
  logId : Bytes := []
  timestamp : Instant := .epoch
  extensions : Bytes := []
  signature : Signature := {}
  origin : Origin := .embedded
  logDescription : String := ""
deriving DecidableEq, Inhabited

/-- What a log signs for `entry`, an encoded log entry. -/
def Sct.signedFields (timestamp : Instant) (entry extensions : Bytes) : List Wire.Field :=
  [.uint 1 version, .uint 1 0, timestamp.field, .fixed entry, .vector 2 extensions]

def Sct.signedData (timestamp : Instant) (entry extensions : Bytes) : Except Halt Wire.Encoding :=
  Wire.write (signedFields timestamp entry extensions)

def Sct.appendSigned (timestamp : Instant) (entry extensions : Bytes) : Wire.Adding Bool :=
  Wire.append (signedFields timestamp entry extensions)

end Transparency
