import TreeStream.Main
import TreeStream.Proofs.Acceptance
import TreeStream.Proofs.Arguments
import TreeStream.Proofs.Calls
import TreeStream.Proofs.Chunking
import TreeStream.Proofs.Dependence
import TreeStream.Proofs.Discarding
import TreeStream.Proofs.Layers
import TreeStream.Proofs.Nesting
import TreeStream.Proofs.Reading
import TreeStream.Proofs.Release
import TreeStream.Proofs.Roles
import TreeStream.Proofs.RoundTrip
import TreeStream.Proofs.Selectors
import TreeStream.Proofs.Splicing
