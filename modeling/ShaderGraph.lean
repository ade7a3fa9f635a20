import ShaderGraph.Config.Read
import ShaderGraph.Proofs.Assembly
import ShaderGraph.Proofs.Transparency
import ShaderGraph.Proofs.TextureLeaves
import ShaderGraph.Proofs.ResultTypes
import ShaderGraph.Proofs.OutputFunctions
import ShaderGraph.Proofs.Construction
import ShaderGraph.Proofs.StaticBranches
import ShaderGraph.Proofs.HeldReports
import ShaderGraph.Proofs.Identity
import ShaderGraph.Proofs.TakenLayers
import ShaderGraph.Proofs.ScalarUniforms
import ShaderGraph.Proofs.Coverage
import ShaderGraph.Proofs.BlendTypes
import ShaderGraph.Proofs.Validity
import ShaderGraph.Proofs.Literals
import ShaderGraph.Proofs.AnyBytes
