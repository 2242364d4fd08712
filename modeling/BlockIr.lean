import BlockIr.Builder
import BlockIr.Main
import BlockIr.Proofs.DecimalPlaces
import BlockIr.Proofs.Delivery
import BlockIr.Proofs.Expansion
import BlockIr.Proofs.IntegerText
import BlockIr.Proofs.Locality
import BlockIr.Proofs.Margins
import BlockIr.Proofs.Placement
import BlockIr.Proofs.Rows
import BlockIr.Proofs.StreamRuns
import BlockIr.Proofs.Termination
import BlockIr.Proofs.Validated
import BlockIr.Proofs.Violations
import BlockIr.Proofs.Description.Dump
import BlockIr.Proofs.Description.Indexes
import BlockIr.Proofs.Description.Isolation
import BlockIr.Proofs.Description.LineBreaks
import BlockIr.Proofs.Description.Location
import BlockIr.Proofs.Description.Range
import BlockIr.Proofs.Description.Reordered
import BlockIr.Proofs.Description.Resolver
import BlockIr.Proofs.Description.Source
import BlockIr.Proofs.Description.Transcript
import BlockIr.Proofs.Description.UseCounts
import BlockIr.Proofs.Description.Written.Document
