import HookWeave.Proofs.Code.Paths
import HookWeave.Proofs.Patch.Sequences
import HookWeave.Proofs.Storage.Loading
import HookWeave.Proofs.Weaving.After
import HookWeave.Proofs.Weaving.Before
import HookWeave.Proofs.Weaving.Depths
import HookWeave.Proofs.Code.Histories
import HookWeave.Proofs.Bytes.Extended
import HookWeave.Proofs.Signature.Extended
import HookWeave.Proofs.Image.Delimited
import HookWeave.Proofs.Storage.Bystanders
import HookWeave.Proofs.Code.Transcribed
import HookWeave.Proofs.Weaving.Typing
import HookWeave.Proofs.Weaving.Commuting
import HookWeave.Proofs.Patch.Isolated
import HookWeave.Proofs.Patch.DryRuns
import HookWeave.Proofs.Hook.Scans
import HookWeave.Proofs.Patch.Injections
import HookWeave.Proofs.Patch.Inside
import HookWeave.Proofs.Patch.Closed
import HookWeave.Proofs.Signature.RoundTrip
import HookWeave.Proofs.Code.Forms
import HookWeave.Proofs.Patch.Resolution
import HookWeave.Proofs.Semantics.Removal
import HookWeave.Proofs.Weaving.Regions
import HookWeave.Proofs.Weaving.Fitted
import HookWeave.Proofs.Catalog.Searches
import HookWeave.Proofs.Code.Refused
import HookWeave.Proofs.Bytes.Groups
import HookWeave.Proofs.Signature.Depth
import HookWeave.Proofs.Weaving.Results
import HookWeave.Proofs.Bytes.Inverses
import HookWeave.Proofs.Image.Interning
