import EightBit.Fixture
import EightBit.Listing
import EightBit.Proofs.Cells
import EightBit.Proofs.Lawful
import EightBit.Proofs.Mos6502
import EightBit.Proofs.Progress
import EightBit.Proofs.Mc6800
import EightBit.Proofs.Mc6809
import EightBit.Proofs.Processor
import EightBit.Proofs.Session
import EightBit.Proofs.Agreement
import EightBit.Proofs.Feeding
import EightBit.Proofs.Listing
import EightBit.Proofs.Shown
import EightBit.Proofs.DataRows
import EightBit.Proofs.Composition
import EightBit.Proofs.Cycles
import EightBit.Proofs.Trace
import EightBit.Proofs.ListedTrace
import EightBit.Proofs.Noise
import EightBit.Proofs.TakenCalls
import EightBit.Proofs.Digits
import EightBit.Proofs.Words
import EightBit.Proofs.Legible
import EightBit.Proofs.Widths
import EightBit.Proofs.Relocation
import EightBit.Proofs.OperandBytes
import EightBit.Proofs.StatementBytes
import EightBit.Proofs.TemplateBytes
import EightBit.Proofs.Lossless
import EightBit.Proofs.Loading
import EightBit.Proofs.Spelling
import EightBit.Proofs.Reloading
import EightBit.Proofs.Compatibility
import EightBit.Proofs.SinglePass
import EightBit.Proofs.Whole
import EightBit.Proofs.Pages
import EightBit.Proofs.Forms
import EightBit.Proofs.Targets.Basic
import EightBit.Proofs.Targets.Mc6809
import EightBit.Proofs.Targets.Z80
import EightBit.Proofs.Targets
import EightBit.Proofs.Replaced
import EightBit.Proofs.IndexRegisters
import EightBit.Proofs.Overflow
import EightBit.Proofs.InvalidModes
import EightBit.Proofs.BitGroup
import EightBit.Proofs.LeadEntries
import EightBit.Proofs.RefusedImages
import EightBit.Proofs.Segmentation
import EightBit.Proofs.Places
import EightBit.Proofs.FirstFault
import EightBit.Proofs.NumberSpellings
import EightBit.Proofs.TraceLines
import EightBit.Proofs.Determination
import EightBit.Proofs.SignExtension
