import BlueSwat.Lib.Machine
import BlueSwat.Lib.Reactive
import BlueSwat.Lib.Bytes
import BlueSwat.Lib.Bits
import BlueSwat.Lib.ByteOrder
import BlueSwat.Lib.Record
import BlueSwat.Lib.Upload
import BlueSwat.Lib.Assembly
import BlueSwat.Lib.LinkedList
import BlueSwat.Lib.LinkQueue
import BlueSwat.Lib.Thumb
import BlueSwat.Lib.Thumb.Run
import BlueSwat.Lib.Thumb.Pair
import BlueSwat.Lib.Thumb.Line
import BlueSwat.Lib.Thumb.Shifted
import BlueSwat.Lib.Thumb.Access
import BlueSwat.Lib.Thumb.Program
import BlueSwat.Ebpf.Inst
import BlueSwat.Ebpf.Vm
import BlueSwat.Ebpf.Isa
import BlueSwat.Ebpf.Verifier
import BlueSwat.Ebpf.Proof.Step
import BlueSwat.Ebpf.Proof.Isa
import BlueSwat.Ebpf.Proof.Verify
import BlueSwat.Ebpf.Proof.ControlFlow
import BlueSwat.Ebpf.Proof.Division
import BlueSwat.Ebpf.Proof.Sandbox
import BlueSwat.Ebpf.Proof.Memory
import BlueSwat.Ebpf.Proof.Exec
import BlueSwat.Ebpf.Helper
import BlueSwat.Ebpf.Proof.Helper
import BlueSwat.Fsm.Core
import BlueSwat.Fsm.PolicyCache
import BlueSwat.Fsm.Install
import BlueSwat.Fsm.Patch
import BlueSwat.Fsm.Proof.PolicyCache
import BlueSwat.Fsm.Proof.Install
import BlueSwat.Fsm.Proof.Patch
import BlueSwat.Fsm.Proof.Bytecode
import BlueSwat.Jit.Thumb2
import BlueSwat.Jit.Emit
import BlueSwat.Jit.Compile
import BlueSwat.Jit.Template
import BlueSwat.Jit.Proof.Rows
import BlueSwat.Jit.Proof.Templates
import BlueSwat.Jit.Proof.Simulation
import BlueSwat.Jit.Size
import BlueSwat.Jit.Layout
import BlueSwat.Jit.Proof.EmitSize
import BlueSwat.Jit.Proof.Passes
import BlueSwat.Jit.Proof.Branch
import BlueSwat.Jit.Proof.Layout
import BlueSwat.Jit.Proof.Alike
import BlueSwat.Jit.Dispatch
import BlueSwat.Jit.Proof.Dispatch
import BlueSwat.Zephyr.State
import BlueSwat.Zephyr.Policies
import BlueSwat.Jit.Proof.Fits
import BlueSwat.Zephyr.Proof.Policies
import BlueSwat.Zephyr.Core
import BlueSwat.Zephyr.LinkLayer
import BlueSwat.Zephyr.Patch
import BlueSwat.Zephyr.L2cap
import BlueSwat.Zephyr.Proof.Verifier
import BlueSwat.Zephyr.Channel
import BlueSwat.Zephyr.Proof.Channel
import BlueSwat.Zephyr.Monitor
import BlueSwat.Zephyr.Statics
import BlueSwat.Zephyr.Proof.Statics
import BlueSwat.Zephyr.Proof.Refinement
import BlueSwat.Zephyr.Proof.Duplicates
import BlueSwat.Zephyr.Proof.Traces
import BlueSwat.Zephyr.Proof.Isolation
import BlueSwat.Zephyr.Proof.Exchanges
import BlueSwat.Zephyr.Proof.Staging
import BlueSwat.Zephyr.Proof.Install
import BlueSwat.Zephyr.Proof.L2cap
import BlueSwat.Zephyr.Proof.ChannelSafety
import BlueSwat.Zephyr.Demux
import BlueSwat.Zephyr.Proof.Demux
import BlueSwat.Zephyr.Proof.Handover
import BlueSwat.Zephyr.Proof.Hopping
import BlueSwat.Mynewt.State
import BlueSwat.Mynewt.Policies
import BlueSwat.Mynewt.Proof.Policies
import BlueSwat.Mynewt.Core
import BlueSwat.Mynewt.Proof.Registry
import BlueSwat.Mynewt.PolicyList
import BlueSwat.Mynewt.Proof.PolicyList
import BlueSwat.Mynewt.Parsers
import BlueSwat.Mynewt.Patch
import BlueSwat.Fsm.Proof.PatchPorts
import BlueSwat.Mynewt.Proof.Parsers
import BlueSwat.Mynewt.Proof.Commit
import BlueSwat.Jit.Proof.Agreement
import BlueSwat.Jit.Proof.CallStandard
import BlueSwat.Jit.Fragment
import BlueSwat.Jit.Proof.Decode
import BlueSwat.Jit.Proof.Mirror
import BlueSwat.Jit.Proof.RowCode
import BlueSwat.Jit.Proof.Operation
import BlueSwat.Jit.Proof.Arith
import BlueSwat.Jit.Proof.Logic
import BlueSwat.Jit.Proof.Shift
import BlueSwat.Jit.Proof.ShiftReg
import BlueSwat.Jit.Proof.Word
import BlueSwat.Jit.Proof.WordLow
import BlueSwat.Jit.Proof.Constant
import BlueSwat.Jit.Proof.Jump
import BlueSwat.Jit.Proof.Access
import BlueSwat.Jit.Proof.Load
import BlueSwat.Jit.Proof.Store
import BlueSwat.Jit.Proof.Pieces
import BlueSwat.Jit.Proof.Preservation
import BlueSwat.Jit.Proof.Right
import BlueSwat.Jit.Proof.Entry
import BlueSwat.Jit.Proof.Faithful
import BlueSwat.Fsm.Device
import BlueSwat.Fsm.Proof.Device
import BlueSwat.Mynewt.Proof.Device
import BlueSwat.Preempt.Cells
import BlueSwat.Preempt.Proof.Cells
import BlueSwat.Preempt.Proof.Linear
import BlueSwat.Zephyr.Proof.Device
import BlueSwat.Ebpf.Proof.Static
import BlueSwat.Fsm.Proof.Static
import BlueSwat.Zephyr.Proof.Answered
