import ArrayKernel.Format.Loop
import ArrayKernel.Kernel.Draft
import ArrayKernel.Loop.Text
import ArrayKernel.Proofs.Ranges
import ArrayKernel.Proofs.Derivation
import ArrayKernel.Proofs.Reads
import ArrayKernel.Proofs.Execution
import ArrayKernel.Proofs.Denotation
import ArrayKernel.Proofs.Footprint
import ArrayKernel.Proofs.Acceptance
import ArrayKernel.Proofs.Independence
import ArrayKernel.Proofs.Writes
import ArrayKernel.Proofs.Raising
import ArrayKernel.Proofs.ReadOrder
import ArrayKernel.Proofs.Changes
import ArrayKernel.Proofs.Specialization
import ArrayKernel.Proofs.Scoping
import ArrayKernel.Proofs.Extension
import ArrayKernel.Proofs.Lockstep
import ArrayKernel.Proofs.Elision
import ArrayKernel.Proofs.Accesses
import ArrayKernel.Proofs.Renaming
import ArrayKernel.Proofs.Grammar
import ArrayKernel.Proofs.Lexing
import ArrayKernel.Proofs.Immediates
import ArrayKernel.Proofs.Reading
import ArrayKernel.Proofs.Shortest
import ArrayKernel.Proofs.Nesting
import ArrayKernel.Proofs.Texts
import ArrayKernel.Proofs.Library
import ArrayKernel.Proofs.Readers
import ArrayKernel.Proofs.Records
import ArrayKernel.Proofs.Exchange
import ArrayKernel.Proofs.Invariant
import ArrayKernel.Proofs.Diagnosis
import ArrayKernel.Proofs.Typing
import ArrayKernel.Proofs.Freshness
import ArrayKernel.Proofs.Extents
