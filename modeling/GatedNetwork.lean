import GatedNetwork.Main
import GatedNetwork.Proofs.Circuit.Coverage
import GatedNetwork.Proofs.Circuit.Gating
import GatedNetwork.Proofs.Circuit.Locality
import GatedNetwork.Proofs.Circuit.Queries
import GatedNetwork.Proofs.Circuit.Reprojection
import GatedNetwork.Proofs.Circuit.Sensitivity
import GatedNetwork.Proofs.Double.Neutral
import GatedNetwork.Proofs.Network.Agreement
import GatedNetwork.Proofs.Network.Backpropagation
import GatedNetwork.Proofs.Network.Clear
import GatedNetwork.Proofs.Network.Failure
import GatedNetwork.Proofs.Network.Json
import GatedNetwork.Proofs.Network.NormalForm
import GatedNetwork.Proofs.Network.Oblivion
import GatedNetwork.Proofs.Network.RoundTrip
import GatedNetwork.Proofs.Network.Transparency
import GatedNetwork.Proofs.Network.Whole
import GatedNetwork.Proofs.Program.Refusal
import GatedNetwork.Proofs.Sampling
import GatedNetwork.Proofs.Storage.Chunk
import GatedNetwork.Proofs.Workspace.Binding
