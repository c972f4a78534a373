import Transparency.Ber.Reader
import Transparency.Ber.Stream
import Transparency.Ber.Tag
import Transparency.Ber.Value
import Transparency.Bytes
import Transparency.Bytes.Hex
import Transparency.Certificate
import Transparency.Certificate.Codec
import Transparency.Certificate.Evidence
import Transparency.Certificate.Name
import Transparency.Certificate.Policies
import Transparency.Certificate.Reader
import Transparency.Check.Evidence
import Transparency.Check.Report
import Transparency.Check.Single
import Transparency.Check.Trail
import Transparency.Codec
import Transparency.Der
import Transparency.Digest
import Transparency.Digest.Sha256
import Transparency.Entry
import Transparency.Journal
import Transparency.Journal.Place
import Transparency.Key
import Transparency.Key.Curve
import Transparency.Key.Ecdsa
import Transparency.Key.Modular
import Transparency.Key.Reader
import Transparency.Key.Rsa
import Transparency.Leaf
import Transparency.Log
import Transparency.Log.Inclusion
import Transparency.Merkle.Proof
import Transparency.Merkle.Tree
import Transparency.Oid
import Transparency.Proofs.Ber.Element
import Transparency.Proofs.Ber.Header
import Transparency.Proofs.Ber.Locality
import Transparency.Proofs.Ber.Pieces
import Transparency.Proofs.Ber.Value
import Transparency.Proofs.Bytes.Hex
import Transparency.Proofs.Certificate.Canonical
import Transparency.Proofs.Certificate.Embedded
import Transparency.Proofs.Certificate.Entries
import Transparency.Proofs.Certificate.Faithful
import Transparency.Proofs.Certificate.Leaves
import Transparency.Proofs.Certificate.Locality
import Transparency.Proofs.Certificate.Name
import Transparency.Proofs.Check.Age
import Transparency.Proofs.Check.Agreement
import Transparency.Proofs.Check.Classification
import Transparency.Proofs.Check.Composure
import Transparency.Proofs.Check.Deadline
import Transparency.Proofs.Check.Exchange
import Transparency.Proofs.Check.Outcome
import Transparency.Proofs.Check.Promise
import Transparency.Proofs.Check.Report
import Transparency.Proofs.Check.Requests
import Transparency.Proofs.Check.Search
import Transparency.Proofs.Check.Settlement
import Transparency.Proofs.Check.Staleness
import Transparency.Proofs.Check.Steady
import Transparency.Proofs.Check.Steps
import Transparency.Proofs.Check.Upgrade
import Transparency.Proofs.Journal.Thresholds
import Transparency.Proofs.Log.Rejection
import Transparency.Proofs.Log.SignedData
import Transparency.Proofs.Merkle.Binding
import Transparency.Proofs.Merkle.Growth
import Transparency.Proofs.Merkle.Path
import Transparency.Proofs.Merkle.Shape
import Transparency.Proofs.Registry.Deferred
import Transparency.Proofs.Registry.Index
import Transparency.Proofs.Sct.Codec
import Transparency.Proofs.Sct.Intake
import Transparency.Proofs.Sct.List
import Transparency.Proofs.Sct.RoundTrip
import Transparency.Proofs.Signature
import Transparency.Proofs.Time
import Transparency.Proofs.Validation.Habits
import Transparency.Proofs.Validation.Policies
import Transparency.Proofs.Whole
import Transparency.Proofs.Wire.Layout
import Transparency.Proofs.Wire.Output
import Transparency.Proofs.Wire.Reading
import Transparency.Proofs.Wire.Writing
import Transparency.Provider
import Transparency.Provider.Script
import Transparency.Registry
import Transparency.Registry.Deferred
import Transparency.ResultCode
import Transparency.Sct
import Transparency.Sct.Codec
import Transparency.Sct.List
import Transparency.Signature
import Transparency.Stored
import Transparency.Text.Unicode
import Transparency.Time
import Transparency.Time.Clock
import Transparency.Time.Seconds
import Transparency.TreeHead
import Transparency.Validation
import Transparency.Validation.Policy
import Transparency.Validation.Subject
import Transparency.Wire.Field
import Transparency.Wire.Intake
import Transparency.Wire.Output
import Transparency.Wire.Reader
