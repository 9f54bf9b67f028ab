import Cil.Action
import Cil.Body
import Cil.Builder
import Cil.Code
import Cil.Command
import Cil.Frame
import Cil.Instruction
import Cil.Operand
import Cil.Pool
import Cil.Proofs.ArgumentRange
import Cil.Proofs.Atomicity
import Cil.Proofs.ConstantLoads
import Cil.Proofs.Delivery
import Cil.Proofs.Dispatch
import Cil.Proofs.Effect
import Cil.Proofs.Emission
import Cil.Proofs.Grammar
import Cil.Proofs.Growth
import Cil.Proofs.HexNumeral
import Cil.Proofs.Hoisting
import Cil.Proofs.Interchange
import Cil.Proofs.Layout
import Cil.Proofs.Listing
import Cil.Proofs.MemberToken
import Cil.Proofs.Mixing
import Cil.Proofs.OpcodeSearch
import Cil.Proofs.Overloads
import Cil.Proofs.PoolIndex
import Cil.Proofs.Recording
import Cil.Proofs.Refusal
import Cil.Proofs.Replay
import Cil.Proofs.Selection
import Cil.Proofs.ShortestForm
import Cil.Proofs.Spelling
import Cil.Proofs.Tiling
import Cil.Proofs.TokenKinds
import Cil.Proofs.TokenText
import Cil.Proofs.TopType
import Cil.Proofs.TypeIndependence
import Cil.Proofs.Verdict
import Cil.Proofs.WellFormed
import Cil.Proofs.WrappedToken
import Cil.Token
import Cil.Ty
import Cil.Xxh64
