import S2Geography.DyadicCells
import S2Geography.DyadicForms
import S2Geography.DyadicAncestors
import S2Geography.CellId
import S2Geography.CellHierarchy
import S2Geography.CellLevels
import S2Geography.CellIterator
import S2Geography.GeographyOperator
import S2Geography.PreparedDwithin
import S2Geography.CellUnion
import S2Geography.CellUnionNormalize
import S2Geography.CellUnionForms
import S2Geography.CellUnionSearch
import S2Geography.CellUnionDifference
import S2Geography.CellUnionOperations
import S2Geography.CellUnionTermination
import S2Geography.BufferCells
import S2Geography.GeographyIndex
import S2Geography.Predicates
import S2Geography.MatrixPredicates
import S2Geography.MatrixAgreement
import S2Geography.DisjointMatrix
import S2Geography.PreorderForest
import S2Geography.UnaryUnion
import S2Geography.Geography
import S2Geography.UnionAggregator
import S2Geography.UnionTree
import S2Geography.CheckedRun
import S2Geography.WkEvents
import S2Geography.Constructor
import S2Geography.Importer
import S2Geography.Translation
import S2Geography.SimpleTranslation
import S2Geography.CollectionTranslation
import S2Geography.ImporterTranslation
import S2Geography.Exporter
import S2Geography.ExportedGeometry
import S2Geography.SerializeRoundTrip
import S2Geography.Shapes
import S2Geography.Build
import S2Geography.ExportCounts
import S2Geography.CollectionAccessor
import S2Geography.Validation
import S2Geography.CollectionValidation
import S2Geography.Recycling
import S2Geography.IndexedGeographies
import S2Geography.PreorderDepths
import S2Geography.PolygonParts
import S2Geography.CellOperators
import S2Geography.CellChildren
import S2Geography.CellAncestors
import S2Geography.CellPreconditions
import S2Geography.CellMissing
import S2Geography.CellTokens
import S2Geography.ListVisits
import S2Geography.Tessellation
import S2Geography.TessellatingExporter
import S2Geography.TessellatedLines
import S2Geography.DeclaredSizes
import S2Geography.RingConstruction
import S2Geography.CoordinateDecoding
import S2Geography.CollectionShapes
import S2Geography.ResultList
import S2Geography.CellOrder
import S2Geography.CellRecycling
import S2Geography.Measures
import S2Geography.ShapeChains
import S2Geography.Boundary
import S2Geography.ClearanceLine
import S2Geography.ClosestFeature
import S2Geography.SegmentCrossing
import S2Geography.SphereCoordinates
import S2Geography.LeftRegions
import S2Geography.IntersectsBox
import S2Geography.HilbertCurve
import S2Geography.HilbertIds
import S2Geography.CellSquares
import S2Geography.CellCurve
import S2Geography.CellNesting
import S2Geography.CellUnionDenormalize
import S2Geography.CellUnionTiles
import S2Geography.CovererSearch
import S2Geography.CovererRuns
import S2Geography.CovererLevels
import S2Geography.CovererMerges
import S2Geography.RegionCoverings
import S2Geography.CanonicalCoverings
