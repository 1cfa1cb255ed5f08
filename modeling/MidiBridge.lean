import MidiBridge.Encoder.Run
import MidiBridge.Port.Session
import MidiBridge.Ring.View
import MidiBridge.Transport.ScriptedHost
import MidiBridge.Transport.SimulatedHost
import MidiBridge.Proofs.Message
import MidiBridge.Proofs.Packet.Carrying
import MidiBridge.Proofs.Encoder.View
import MidiBridge.Proofs.Encoder.Invariant
import MidiBridge.Proofs.Encoder.Completion
import MidiBridge.Proofs.Encoder.Gathering
import MidiBridge.Proofs.Encoder.RoundTrip
import MidiBridge.Proofs.Encoder.Reframing
import MidiBridge.Proofs.Encoder.Transparency
import MidiBridge.Proofs.Encoder.WellFormed
import MidiBridge.Proofs.Encoder.Provenance
import MidiBridge.Proofs.Encoder.Flat
import MidiBridge.Proofs.Encoder.Memory
import MidiBridge.Proofs.Encoder.ClosedForm
import MidiBridge.Proofs.Encoder.Blocks
import MidiBridge.Proofs.Encoder.Stability
import MidiBridge.Proofs.Encoder.Losses
import MidiBridge.Proofs.Encoder.Tagging
import MidiBridge.Proofs.Ring.Whole
import MidiBridge.Proofs.Ring.Refinement
import MidiBridge.Proofs.Ring.Space
import MidiBridge.Proofs.Ring.Exactness
import MidiBridge.Proofs.Transport.Faithful
import MidiBridge.Proofs.Transport.History
import MidiBridge.Proofs.Transport.Recorder
import MidiBridge.Proofs.Port.Gather
import MidiBridge.Proofs.Port.Turns
import MidiBridge.Proofs.Port.Inbound
import MidiBridge.Proofs.Port.Delivery
import MidiBridge.Proofs.Port.Writing
import MidiBridge.Proofs.Port.Outbound
import MidiBridge.Proofs.Port.Moves
import MidiBridge.Proofs.Port.Transfer
import MidiBridge.Proofs.Port.Reports
import MidiBridge.Proofs.Port.Reception
import MidiBridge.Proofs.Port.Reader
import MidiBridge.Proofs.Port.Independence
import MidiBridge.Proofs.Port.Loop
import MidiBridge.Proofs.Port.Account
import MidiBridge.Proofs.Port.Flushing
import MidiBridge.Proofs.Port.Retry
import MidiBridge.Proofs.Port.Backpressure
import MidiBridge.Proofs.Port.Resemblance
