import HostScript.Analysis.Outline
import HostScript.Code.Outline
import HostScript.Engine.Outline
import HostScript.Host.Bag.Outline
import HostScript.Host.Outline
import HostScript.Options.Outline
import HostScript.Proofs.Analysis.Divergence
import HostScript.Proofs.Analysis.Fresh
import HostScript.Proofs.Analysis.Progress
import HostScript.Proofs.Analysis.Signatures
import HostScript.Proofs.Analysis.Standpoint
import HostScript.Proofs.Analysis.Targets
import HostScript.Proofs.Code.Worklist
import HostScript.Proofs.Dynamic.Lookup
import HostScript.Proofs.Host.Acceptance
import HostScript.Proofs.Machine.Conversion
import HostScript.Proofs.Machine.Depth
import HostScript.Proofs.Scalar.FastPath
import HostScript.Proofs.Script.RoundTrip
import HostScript.Proofs.Token.Quoting
import HostScript.Proofs.Token.Shifting
import HostScript.Proofs.Value.Unfolding
import HostScript.Script.Outline
