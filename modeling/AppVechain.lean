import AppVechain.Ustream.Storage
import AppVechain.Display.Narrow
import AppVechain.Application.Payment
import AppVechain.Application.Progress
import AppVechain.Application.Provenance
import AppVechain.Device.Content
import AppVechain.Application.Conversation
import AppVechain.Application.Conformance
import AppVechain.Application.Specification
import AppVechain.Application.Keys
import AppVechain.Device.Conformance
import AppVechain.Device.Record
import AppVechain.Application.Settings
import AppVechain.Device.Abort
import AppVechain.Device.Accepted
import AppVechain.Device.Accounting
import AppVechain.Device.Answers
import AppVechain.Device.Apdu
import AppVechain.Device.Buffers
import AppVechain.Device.Certificate
import AppVechain.Device.Chunks
import AppVechain.Device.ClauseCount
import AppVechain.Device.DataWarning
import AppVechain.Device.DomainSeparation
import AppVechain.Device.Forget
import AppVechain.Device.KeyBinding
import AppVechain.Device.LengthText
import AppVechain.Device.Lifecycle
import AppVechain.Device.Recipients
import AppVechain.Device.Review
import AppVechain.Device.Session
import AppVechain.Device.SignedBytes
import AppVechain.Device.StaleInput
import AppVechain.Device.TokenTransfer
import AppVechain.Display.Address
import AppVechain.Display.Amount
import AppVechain.Display.Printing
import AppVechain.Display.Scaling
import AppVechain.Rlp.Fields
import AppVechain.Rlp.Related
import AppVechain.Streaming.Machine
import AppVechain.Uint256.DivisionObjects
import AppVechain.Ustream.Bounds
import AppVechain.Ustream.ClauseList
import AppVechain.Ustream.Control
import AppVechain.Ustream.FieldsLayout
import AppVechain.Ustream.HeaderFeed
import AppVechain.Ustream.RoundTrip
import AppVechain.Ustream.Simulation
import AppVechain.Ustream.Termination
import AppVechain.Ustream.Tx
