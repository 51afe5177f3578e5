import ContractVM.Codec.Schema
import ContractVM.Main
import ContractVM.Proofs.Assembly.Comments
import ContractVM.Proofs.Assembly.LineTable
import ContractVM.Proofs.Assembly.Literals
import ContractVM.Proofs.Assembly.RegisterOperands
import ContractVM.Proofs.Assembly.Rendered
import ContractVM.Proofs.Assembly.Stored
import ContractVM.Proofs.Codec.Container
import ContractVM.Proofs.Codec.Schemas
import ContractVM.Proofs.Heap.CopiesEqual
import ContractVM.Proofs.Heap.Cycles
import ContractVM.Proofs.Heap.Mirrors
import ContractVM.Proofs.Heap.OrderedMaps
import ContractVM.Proofs.Heap.Places
import ContractVM.Proofs.Heap.Symmetry
import ContractVM.Proofs.Heap.Trees
import ContractVM.Proofs.Isa.ReadBack
import ContractVM.Proofs.Machine.Aligned
import ContractVM.Proofs.Machine.Atomic
import ContractVM.Proofs.Machine.Beneath
import ContractVM.Proofs.Machine.Bounds
import ContractVM.Proofs.Machine.Dispatch
import ContractVM.Proofs.Machine.Footprint
import ContractVM.Proofs.Machine.Isolation
import ContractVM.Proofs.Machine.Leftover
import ContractVM.Proofs.Machine.Lifecycle
import ContractVM.Proofs.Machine.LimitedRuns
import ContractVM.Proofs.Machine.Printed
import ContractVM.Proofs.Machine.Quotients
import ContractVM.Proofs.Machine.RunningOff
import ContractVM.Proofs.Machine.SameCode
import ContractVM.Proofs.Machine.Site
import ContractVM.Proofs.Machine.Structs
import ContractVM.Proofs.Value.Casts
import ContractVM.Proofs.Value.Slices
