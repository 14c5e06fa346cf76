import TrackedValues.Binary64
import TrackedValues.Buffer.Basic
import TrackedValues.Buffer.Views
import TrackedValues.Decimal
import TrackedValues.Error
import TrackedValues.Machine
import TrackedValues.Memory.Heap
import TrackedValues.Size
import TrackedValues.Memory.Tracker
import TrackedValues.Session.Basic
import TrackedValues.Session.Command
import TrackedValues.Session.Literal
import TrackedValues.Session.Script
import TrackedValues.Session.Targets
import TrackedValues.Session.Report
import TrackedValues.SlotList.Basic
import TrackedValues.SlotList.Iteration
import TrackedValues.SlotList.Links
import TrackedValues.SlotList.Table
import TrackedValues.Text.Invisible
import TrackedValues.Text.Quoted
import TrackedValues.Text.Utf8
import TrackedValues.Value.Access
import TrackedValues.Value.Basic
import TrackedValues.Value.Editing
import TrackedValues.Value.Order
import TrackedValues.Value.Ownership
import TrackedValues.Value.Rendering
import TrackedValues.Proofs.SlotList.Linking
import TrackedValues.Proofs.SlotList.Walking
import TrackedValues.Proofs.SlotList.Sequence
import TrackedValues.Proofs.Buffer.Growth
import TrackedValues.Proofs.SlotList.Ends
import TrackedValues.Proofs.ValueList.Refinement
import TrackedValues.Proofs.Value.Holdings
import TrackedValues.Proofs.Value.Moves
import TrackedValues.Proofs.ValueList.Moves
import TrackedValues.Proofs.Value.Copying
import TrackedValues.Proofs.Value.Editing
import TrackedValues.Proofs.World.Balance
import TrackedValues.Proofs.World.Atomicity
import TrackedValues.Proofs.SlotList.Integrity
import TrackedValues.Proofs.ValueList.Integrity
import TrackedValues.Proofs.Memory.Pool
import TrackedValues.Proofs.Memory.Stacking
import TrackedValues.Proofs.Memory.Admission
import TrackedValues.Proofs.SlotList.Packing
import TrackedValues.Proofs.Value.Canonical
import TrackedValues.Proofs.World.Fidelity
import TrackedValues.Proofs.Value.Housing
import TrackedValues.Proofs.World.Housing
import TrackedValues.Proofs.World.Costs
import TrackedValues.Proofs.Memory.Obtaining
import TrackedValues.Proofs.Buffer.Order
import TrackedValues.Proofs.Value.Order
import TrackedValues.Proofs.World.Residue
import TrackedValues.Proofs.Buffer.Content
import TrackedValues.Proofs.Buffer.Scratch
import TrackedValues.Proofs.Buffer.Shelf
import TrackedValues.Proofs.Memory.Veil
import TrackedValues.Proofs.SlotList.Recast
import TrackedValues.Proofs.SlotList.Veil
import TrackedValues.Proofs.Buffer.Veil
import TrackedValues.Proofs.Value.Veil
import TrackedValues.Proofs.Value.VeiledEditing
import TrackedValues.Proofs.Session.VeiledViews
import TrackedValues.Proofs.Session.Veil
import TrackedValues.Proofs.Session.VeiledCommands
import TrackedValues.Proofs.Session.Transparency
import TrackedValues.Proofs.SlotList.Division
import TrackedValues.Proofs.ValueList.Reading
import TrackedValues.Proofs.Memory.Asking
import TrackedValues.Proofs.SlotList.Occupancy
import TrackedValues.Proofs.ValueList.Tables
import TrackedValues.Proofs.World.Draining
import TrackedValues.Proofs.Buffer.Room
import TrackedValues.Proofs.Buffer.Geometric
import TrackedValues.Proofs.Buffer.Pushing
import TrackedValues.Proofs.Buffer.Views
import TrackedValues.Proofs.Text.Encoding
import TrackedValues.Proofs.Text.Decoding
import TrackedValues.Proofs.Value.Framing
import TrackedValues.Proofs.World.Framing
import TrackedValues.Proofs.Buffer.Coherence
import TrackedValues.Proofs.Buffer.Lengthening
import TrackedValues.Proofs.Buffer.Stock
import TrackedValues.Proofs.Buffer.Replay
import TrackedValues.Proofs.Text.Numeral
import TrackedValues.Proofs.Text.Quoted
import TrackedValues.Proofs.Decimal.Intervals
import TrackedValues.Proofs.Decimal.Written
import TrackedValues.Proofs.Value.Unambiguous
import TrackedValues.Proofs.ValueList.Positions
