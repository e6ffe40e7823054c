import DoubleCurve.Archive.Records
import DoubleCurve.Bonds
import DoubleCurve.Buffers
import DoubleCurve.CellTable
import DoubleCurve.Curve
import DoubleCurve.Decimal
import DoubleCurve.Distance
import DoubleCurve.Endpoint
import DoubleCurve.Fault
import DoubleCurve.Json
import DoubleCurve.Junctions
import DoubleCurve.LinkText
import DoubleCurve.LocusText
import DoubleCurve.Matching
import DoubleCurve.Mesh
import DoubleCurve.Notice
import DoubleCurve.Proofs.Distance.Field
import DoubleCurve.Proofs.Distance.Lowering
import DoubleCurve.Proofs.Distance.Modes
import DoubleCurve.Proofs.Distance.Visits
import DoubleCurve.Proofs.ExactScalar
import DoubleCurve.Proofs.Framing.Holonomy
import DoubleCurve.Proofs.Framing.Orthonormal
import DoubleCurve.Proofs.Framing.Prefixes
import DoubleCurve.Proofs.Framing.Tangents
import DoubleCurve.Proofs.LawfulScalar
import DoubleCurve.Proofs.LinkText
import DoubleCurve.Proofs.LocusText.Files
import DoubleCurve.Proofs.LocusText.Sections
import DoubleCurve.Proofs.LocusText.Starts
import DoubleCurve.Proofs.Matching.Buckets
import DoubleCurve.Proofs.Matching.Build
import DoubleCurve.Proofs.Matching.Chains
import DoubleCurve.Proofs.Matching.Companions
import DoubleCurve.Proofs.Matching.Gathering
import DoubleCurve.Proofs.Matching.Grouping
import DoubleCurve.Proofs.Matching.Partners
import DoubleCurve.Proofs.Matching.Places
import DoubleCurve.Proofs.Matching.Probing
import DoubleCurve.Proofs.Matching.Searching
import DoubleCurve.Proofs.Matching.Slots
import DoubleCurve.Proofs.Matching.Stages
import DoubleCurve.Proofs.Matching.Steps
import DoubleCurve.Proofs.Matching.Ties
import DoubleCurve.Proofs.Matching.Tolerance
import DoubleCurve.Proofs.OrderedScalar
import DoubleCurve.Proofs.RealScalar
import DoubleCurve.Proofs.Rotation
import DoubleCurve.Proofs.SharedEdges
import DoubleCurve.Proofs.Soup.Copies
import DoubleCurve.Proofs.Soup.Curves
import DoubleCurve.Proofs.Soup.Edges
import DoubleCurve.Proofs.Soup.Layout
import DoubleCurve.Proofs.Soup.SelfImages
import DoubleCurve.Proofs.Soup.Separated
import DoubleCurve.Proofs.Text
import DoubleCurve.Proofs.Trace.Claiming
import DoubleCurve.Proofs.Trace.Closing
import DoubleCurve.Proofs.Trace.Components
import DoubleCurve.Proofs.Trace.Crossings
import DoubleCurve.Proofs.Trace.Fidelity
import DoubleCurve.Proofs.Trace.Following
import DoubleCurve.Proofs.Trace.Paired
import DoubleCurve.Proofs.Trace.Standing
import DoubleCurve.Proofs.Trace.Straightest
import DoubleCurve.Proofs.Trace.Strands
import DoubleCurve.Proofs.Trace.Vertices
import DoubleCurve.Proofs.Trace.Walking
import DoubleCurve.Proofs.Trace.Whole
import DoubleCurve.Report
import DoubleCurve.Rotation
import DoubleCurve.Scalar
import DoubleCurve.Segments
import DoubleCurve.Settings
import DoubleCurve.Text
import DoubleCurve.Trace.Curves
import DoubleCurve.Trace.State
import DoubleCurve.Trace.Walk
import DoubleCurve.Vec3
