import LinearMemory.Decimal.Double
import LinearMemory.Decimal.Layout
import LinearMemory.Decimal.Shortest
import LinearMemory.Error
import LinearMemory.Fixture.Basic
import LinearMemory.Fixture.Draft
import LinearMemory.Fixture.Fault
import LinearMemory.Fixture.Field
import LinearMemory.Fixture.Frame
import LinearMemory.Fixture.Mismatch
import LinearMemory.Fixture.Operation
import LinearMemory.Fixture.Reader
import LinearMemory.Fixture.Replay
import LinearMemory.Fixture.Schema
import LinearMemory.Fixture.Transition
import LinearMemory.Fixture.Writer
import LinearMemory.Hex
import LinearMemory.Json.Basic
import LinearMemory.Json.Fault
import LinearMemory.Json.Literal
import LinearMemory.Json.Numeral
import LinearMemory.Json.Token
import LinearMemory.Memory.Basic
import LinearMemory.Memory.Call
import LinearMemory.Memory.Dump
import LinearMemory.Memory.Journal
import LinearMemory.Memory.Lemmas
import LinearMemory.Proofs.Decimal.Rounding
import LinearMemory.Proofs.Except
import LinearMemory.Proofs.Fixture.Acceptance
import LinearMemory.Proofs.Fixture.Agreement
import LinearMemory.Proofs.Fixture.Document
import LinearMemory.Proofs.Fixture.Entries
import LinearMemory.Proofs.Fixture.Fields
import LinearMemory.Proofs.Fixture.Filling
import LinearMemory.Proofs.Fixture.Integers
import LinearMemory.Proofs.Fixture.Judging
import LinearMemory.Proofs.Fixture.Lexing
import LinearMemory.Proofs.Fixture.Meaning
import LinearMemory.Proofs.Fixture.Members
import LinearMemory.Proofs.Fixture.Nesting
import LinearMemory.Proofs.Fixture.Objects
import LinearMemory.Proofs.Fixture.Outcome
import LinearMemory.Proofs.Fixture.Recording
import LinearMemory.Proofs.Fixture.Rendering
import LinearMemory.Proofs.Fixture.Rows
import LinearMemory.Proofs.Fixture.Slots
import LinearMemory.Proofs.Fixture.Truncation
import LinearMemory.Proofs.Fixture.Typing
import LinearMemory.Proofs.Fixture.Unknown
import LinearMemory.Proofs.Fixture.Values
import LinearMemory.Proofs.Hex.Decoding
import LinearMemory.Proofs.Hex.Digits
import LinearMemory.Proofs.Json.Acceptance
import LinearMemory.Proofs.Json.Form
import LinearMemory.Proofs.Json.Integer
import LinearMemory.Proofs.Json.Literal
import LinearMemory.Proofs.Json.Numeral
import LinearMemory.Proofs.Json.Scalars
import LinearMemory.Proofs.Json.Tree
import LinearMemory.Proofs.Memory.Address
import LinearMemory.Proofs.Memory.Append
import LinearMemory.Proofs.Memory.Bounds
import LinearMemory.Proofs.Memory.Dropped
import LinearMemory.Proofs.Memory.Dump
import LinearMemory.Proofs.Memory.Effect
import LinearMemory.Proofs.Memory.Growth
import LinearMemory.Proofs.Memory.History
import LinearMemory.Proofs.Memory.Journal
import LinearMemory.Proofs.Memory.Length
import LinearMemory.Proofs.Memory.Order
import LinearMemory.Proofs.Memory.Rejection
import LinearMemory.Proofs.Memory.Resize
import LinearMemory.Proofs.Memory.Run
import LinearMemory.Proofs.Memory.Stability
import LinearMemory.Proofs.Text.Octets
import LinearMemory.Proofs.Text.Order
import LinearMemory.Text.Basic
import LinearMemory.Text.Invisible
