import ArmSimulator.Library.ByteStore
import ArmSimulator.Library.CString
import ArmSimulator.Library.CarryArithmetic
import ArmSimulator.Library.HostCalls
import ArmSimulator.Library.Insertion
import ArmSimulator.Library.KeyedStore
import ArmSimulator.Library.Lexer
import ArmSimulator.Library.MultiWord
import ArmSimulator.Library.Mutex
import ArmSimulator.Library.Outcomes
import ArmSimulator.Library.Runs
import ArmSimulator.Library.SortedTable
import ArmSimulator.Library.StepFunction
import ArmSimulator.Util
import ArmSimulator.Memory
import ArmSimulator.Core
import ArmSimulator.Exception
import ArmSimulator.DataProcessing
import ArmSimulator.LoadStore
import ArmSimulator.BranchOther
import ArmSimulator.Instruction
import ArmSimulator.ByteMap
import ArmSimulator.UserMode
import ArmSimulator.NoEffect
import ArmSimulator.Nesting
import ArmSimulator.Conditions
import ArmSimulator.SBit
import ArmSimulator.BlockTransfer
import ArmSimulator.SaveRestore
import ArmSimulator.DataAbort
import ArmSimulator.BlockAssertion
import ArmSimulator.MultiWordAdd
import ArmSimulator.CarryFlags
import ArmSimulator.MultiWordSub
import ArmSimulator.ShiftReference
import ArmSimulator.EntryFrame
import ArmSimulator.Restart
import ArmSimulator.Unimplemented
import ArmSimulator.SignedLoads
import ArmSimulator.DoubleTransfer
import ArmSimulator.HostOrder
import ArmSimulator.EvenPc
import ArmSimulator.EvenTransfers
import ArmSimulator.PcAlignment
import ArmSimulator.Scanner
import ArmSimulator.GdbProtocol
import ArmSimulator.PacketFrame
import ArmSimulator.Replies
import ArmSimulator.ReplyBounds
import ArmSimulator.Framing
import ArmSimulator.Download
import ArmSimulator.RegisterBlock
import ArmSimulator.ResetState
import ArmSimulator.Branches
import ArmSimulator.ArithmeticFlags
import ArmSimulator.StatusMoves
import ArmSimulator.StoreBlocks
import ArmSimulator.ShiftCounts
import ArmSimulator.SingleTransfers
import ArmSimulator.Debug
import ArmSimulator.BoundCheck
import ArmSimulator.HexWords
import ArmSimulator.SingleRegister
import ArmSimulator.Continue
import ArmSimulator.ScannerErrors
import ArmSimulator.CarriedBytes
import ArmSimulator.Isolation
import ArmSimulator.Assembly
import ArmSimulator.Listing
import ArmSimulator.Pgcd
import ArmSimulator.TriInsertion
import ArmSimulator.FreeStack
import ArmSimulator.IrqHandler
import ArmSimulator.Interrupts
import ArmSimulator.Target
import ArmSimulator.Connection
import ArmSimulator.Requests
import ArmSimulator.Observation
import ArmSimulator.Server
import ArmSimulator.Image
import ArmSimulator.Stepping
import ArmSimulator.Debugged
import ArmSimulator.Wire
import ArmSimulator.Dialogue
