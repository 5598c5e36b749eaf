import QueryShapes.Main
import QueryShapes.Text.Script
import QueryShapes.Proofs.GraphEdges
import QueryShapes.Proofs.NameParts
import QueryShapes.Proofs.PostOrder
import QueryShapes.Proofs.GraphBuild
import QueryShapes.Proofs.BaseOrder
import QueryShapes.Proofs.CompositeFields
import QueryShapes.Proofs.QuotedText
import QueryShapes.Proofs.BaseWalk
import QueryShapes.Proofs.FieldOrigin
import QueryShapes.Proofs.Emission
import QueryShapes.Proofs.EmittedFields
import QueryShapes.Proofs.InheritedFields
import QueryShapes.Proofs.CastChains
import QueryShapes.Proofs.CastRows
import QueryShapes.Proofs.SharedTargets
import QueryShapes.Proofs.CastAmbiguities
import QueryShapes.Proofs.Ancestors
import QueryShapes.Proofs.CommonAncestors
import QueryShapes.Proofs.CastMapText
import QueryShapes.Proofs.ClosedOutput
import QueryShapes.Proofs.OrderContents
import QueryShapes.Proofs.CastDecisions
import QueryShapes.Proofs.CastDistances
import QueryShapes.Proofs.DeclaredNames
import QueryShapes.Proofs.Representations
import QueryShapes.Proofs.Failures
import QueryShapes.Proofs.GenerationSuccess
import QueryShapes.Proofs.CastIndependence
import QueryShapes.Proofs.ScriptLiterals
import QueryShapes.Proofs.ImportPaths
import QueryShapes.Proofs.ResolvedImports
import QueryShapes.Proofs.Delivery
import QueryShapes.Proofs.DiskFiles
import QueryShapes.Proofs.UnitLayout
import QueryShapes.Proofs.DeclaredBlocks
import QueryShapes.Proofs.UnitPaths
import QueryShapes.Proofs.SameTypes
import QueryShapes.Proofs.SourceOrder
import QueryShapes.Proofs.AncestorOrder
import QueryShapes.Proofs.AncestorCasts
import QueryShapes.Proofs.Unfoldings
import QueryShapes.Proofs.LinkMembers
import QueryShapes.Proofs.CastSymmetry
import QueryShapes.Proofs.Identifiers
import QueryShapes.Proofs.MemberNames
import QueryShapes.Proofs.MaterialScalars
import QueryShapes.Proofs.ScriptLines
import QueryShapes.Proofs.Compaction
import QueryShapes.Proofs.LinkedShapes
import QueryShapes.Proofs.SnapshotRows
import QueryShapes.Proofs.MemberKeys
import QueryShapes.Proofs.WrittenMembers
