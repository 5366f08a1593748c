import NetlistPrep.Command
import NetlistPrep.Main
import NetlistPrep.Netlist.Slice
import NetlistPrep.Store
import NetlistPrep.Attribute.Pattern
import NetlistPrep.Preamble.Marker
import NetlistPrep.Proofs.Text.Replace
import NetlistPrep.Proofs.Text.Delimited
import NetlistPrep.Proofs.Text.LineEnds
import NetlistPrep.Proofs.Text.Pattern
import NetlistPrep.Proofs.KeyCase
import NetlistPrep.Proofs.KeyCase.Simultaneous
import NetlistPrep.Proofs.Quantity
import NetlistPrep.Proofs.Recovery
import NetlistPrep.Proofs.Attribute
import NetlistPrep.Proofs.Attribute.Pattern
import NetlistPrep.Proofs.Attribute.Scanner
import NetlistPrep.Proofs.Arithmetic
import NetlistPrep.Proofs.Rectangle
import NetlistPrep.Proofs.Recovery.Again
import NetlistPrep.Proofs.Double
import NetlistPrep.Proofs.Double.Quotient
import NetlistPrep.Proofs.Double.Order
import NetlistPrep.Proofs.Decimal.Numeral
import NetlistPrep.Proofs.Decimal.Grammar
import NetlistPrep.Proofs.Decimal.Style
import NetlistPrep.Proofs.Decimal.Pattern
import NetlistPrep.Proofs.Quantity.ReadBack
import NetlistPrep.Proofs.Quantity.Grammar
import NetlistPrep.Proofs.Recovery.ReadBack
import NetlistPrep.Proofs.Attribute.Agreement
import NetlistPrep.Proofs.PinInfo
import NetlistPrep.Proofs.PinInfo.Walk
import NetlistPrep.Proofs.PinInfo.Again
import NetlistPrep.Proofs.PinInfo.ReadBack
import NetlistPrep.Proofs.PinInfo.Table
import NetlistPrep.Proofs.Preamble
import NetlistPrep.Proofs.Preamble.Sections
import NetlistPrep.Proofs.Pipeline.Line
import NetlistPrep.Proofs.Pipeline.Run
import NetlistPrep.Proofs.Pipeline.Output
import NetlistPrep.Proofs.Pipeline.Stability
import NetlistPrep.Proofs.Pipeline.Banners
import NetlistPrep.Proofs.Descriptor.Line
import NetlistPrep.Proofs.Descriptor.Meaning
import NetlistPrep.Proofs.Descriptor.Reader
import NetlistPrep.Proofs.Descriptor.Names
import NetlistPrep.Proofs.Descriptor.Layout
import NetlistPrep.Proofs.Descriptor.Machine
import NetlistPrep.Proofs.Pipeline.Failure
import NetlistPrep.Proofs.Json
import NetlistPrep.Proofs.Netlist
import NetlistPrep.Proofs.Store
import NetlistPrep.Proofs.Store.Netlist
import NetlistPrep.Proofs.Pass
import NetlistPrep.Proofs.Pipeline.Accounts
import NetlistPrep.Proofs.Recovery.Appended
import NetlistPrep.Proofs.TextFile
import NetlistPrep.Proofs.FileTree
import NetlistPrep.Proofs.CommandLine
import NetlistPrep.Proofs.Double.Magnitude
import NetlistPrep.Proofs.Double.Nearest
import NetlistPrep.Proofs.Double.Operations
import NetlistPrep.Proofs.Decimal.Size
import NetlistPrep.Proofs.Decimal.Round
import NetlistPrep.Proofs.Quantity.Size
import NetlistPrep.Proofs.Quantity.Again
import NetlistPrep.Proofs.Quantity.Edges
import NetlistPrep.Proofs.Quantity.Canonical
import NetlistPrep.Proofs.Path
import NetlistPrep.Proofs.Settings
import NetlistPrep.Proofs.Pipeline.LineEnds
