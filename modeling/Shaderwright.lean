import Shaderwright.Emit.Plain
import Shaderwright.Main
import Shaderwright.Proofs.Atomicity
import Shaderwright.Proofs.Document.Edits
import Shaderwright.Proofs.Hlsl.HeaderHistory
import Shaderwright.Proofs.Msl.DirectText
import Shaderwright.Proofs.Msl.LibraryHistory
import Shaderwright.Proofs.Msl.Symbols
import Shaderwright.Proofs.NameResolution
import Shaderwright.Proofs.Portability
import Shaderwright.Proofs.Source.Scoping
import Shaderwright.Proofs.SourceFailures
import Shaderwright.Proofs.UniformBindings
import Shaderwright.Proofs.Hlsl.Composition
import Shaderwright.Proofs.Document.Placement
import Shaderwright.Proofs.Hlsl.HeaderIdempotence
import Shaderwright.Proofs.Emit.Shows
import Shaderwright.Proofs.Hlsl.SamplerStates
import Shaderwright.Proofs.Emit.Equivariance
import Shaderwright.Proofs.Hlsl.Equivariance
import Shaderwright.Proofs.Msl.Interchange
import Shaderwright.Proofs.Msl.Equivariance
import Shaderwright.Proofs.MacroHygiene
import Shaderwright.Proofs.LocalParameters
import Shaderwright.Proofs.InputScope
import Shaderwright.Proofs.Msl.Rematch
import Shaderwright.Proofs.SessionCounters
import Shaderwright.Proofs.Files.Descent
import Shaderwright.Proofs.Hlsl.Budget
import Shaderwright.Proofs.Files.Keeping
import Shaderwright.Proofs.FlushedHeaders
import Shaderwright.Proofs.CommandLine.Ending
import Shaderwright.Proofs.CommandLine.Outputs
import Shaderwright.Proofs.Msl.UniformIds
import Shaderwright.Proofs.Emit.Prints
import Shaderwright.Proofs.Msl.Tokens
import Shaderwright.Proofs.Hlsl.Rendering
import Shaderwright.Proofs.Msl.Rendering
import Shaderwright.Proofs.EntryPoints
import Shaderwright.Proofs.Msl.Template
import Shaderwright.Proofs.Msl.Reads
import Shaderwright.Proofs.Msl.TextureReads
import Shaderwright.Proofs.Document.Markers
import Shaderwright.Proofs.Document.Upsert
import Shaderwright.Proofs.Hlsl.HeaderFailures
import Shaderwright.Proofs.Emit.Spelling
import Shaderwright.Proofs.Emit.Grouping
import Shaderwright.Proofs.Emit.Appends
import Shaderwright.Proofs.Hlsl.BindingTable
import Shaderwright.Proofs.Shader.TypeStability
import Shaderwright.Proofs.Hlsl.PaintCalls
import Shaderwright.Proofs.Source.FirstKinds
import Shaderwright.Proofs.Emit.Extends
import Shaderwright.Proofs.RenderedAside
import Shaderwright.Proofs.WriterDiscipline
import Shaderwright.Proofs.Shader.Resized
import Shaderwright.Proofs.Emit.Woven
import Shaderwright.Proofs.Hlsl.Extents
import Shaderwright.Proofs.Msl.Extents
import Shaderwright.Proofs.ArrayExtents
