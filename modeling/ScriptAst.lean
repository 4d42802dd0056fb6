import ScriptAst.Node.Printer
import ScriptAst.ParseTree.Interchange
import ScriptAst.Position
import ScriptAst.Proofs.Harvest
import ScriptAst.Proofs.Reuse
import ScriptAst.Proofs.Shadowing
import ScriptAst.Proofs.Tokens
import ScriptAst.Proofs.Interchange
import ScriptAst.Proofs.WellFormed
import ScriptAst.Proofs.Functions.Harvest
import ScriptAst.Proofs.Renaming
import ScriptAst.Proofs.Placement
import ScriptAst.Proofs.Limit
import ScriptAst.Proofs.Renderings
import ScriptAst.Proofs.Printing.Outline
import ScriptAst.Proofs.Printing.Visited
import ScriptAst.Proofs.History
import ScriptAst.Proofs.OuterFrames
import ScriptAst.Proofs.Chains
import ScriptAst.Proofs.Slots
import ScriptAst.Proofs.Literals.Strings
import ScriptAst.Proofs.Literals.Radix
import ScriptAst.Proofs.Literals.Decimals
import ScriptAst.Proofs.Literals.CodeUnits
import ScriptAst.Proofs.Templates
import ScriptAst.Proofs.WholeText
import ScriptAst.Proofs.Json.Legible
import ScriptAst.Proofs.Layout
