import ChartCompiler.Command.Failure
import ChartCompiler.Command.Options
import ChartCompiler.Command.Outcome
import ChartCompiler.Compile
import ChartCompiler.Config.Basic
import ChartCompiler.Config.Typography
import ChartCompiler.Config.Writer
import ChartCompiler.Decimal.Dyadic
import ChartCompiler.Decimal.Layout
import ChartCompiler.Decimal.Numeral
import ChartCompiler.Decimal.Shortest
import ChartCompiler.Expression.Dash
import ChartCompiler.Expression.HexColor
import ChartCompiler.Expression.Position
import ChartCompiler.Feature.Capability
import ChartCompiler.Feature.Precedence
import ChartCompiler.Json.Basic
import ChartCompiler.Json.Fault
import ChartCompiler.Json.Reader
import ChartCompiler.Json.Record
import ChartCompiler.Json.Typed
import ChartCompiler.Json.Writer
import ChartCompiler.Look.Palette
import ChartCompiler.Look.Theme
import ChartCompiler.Main
import ChartCompiler.Plot.Area
import ChartCompiler.Plot.DualAxis
import ChartCompiler.Plot.ErrorBar
import ChartCompiler.Plot.Facet
import ChartCompiler.Plot.Overlay
import ChartCompiler.Plot.Series
import ChartCompiler.Proofs.Alignment
import ChartCompiler.Proofs.AreaEdits
import ChartCompiler.Proofs.Bandwidths
import ChartCompiler.Proofs.BinLabels
import ChartCompiler.Proofs.CheckedCompile
import ChartCompiler.Proofs.CommandModes
import ChartCompiler.Proofs.Composition
import ChartCompiler.Proofs.Conservation
import ChartCompiler.Proofs.ConstantData
import ChartCompiler.Proofs.Densities
import ChartCompiler.Proofs.Dependence
import ChartCompiler.Proofs.DimensionNames
import ChartCompiler.Proofs.Double.Arithmetic
import ChartCompiler.Proofs.Double.Bounds
import ChartCompiler.Proofs.Double.Decimals
import ChartCompiler.Proofs.Double.Infinities
import ChartCompiler.Proofs.Double.Mixing
import ChartCompiler.Proofs.Double.Quarters
import ChartCompiler.Proofs.Double.Rank
import ChartCompiler.Proofs.Double.Rounding
import ChartCompiler.Proofs.Double.Scaled
import ChartCompiler.Proofs.Double.Selection
import ChartCompiler.Proofs.Double.Signs
import ChartCompiler.Proofs.Double.Steps
import ChartCompiler.Proofs.Double.Sums
import ChartCompiler.Proofs.Double.Unpacked
import ChartCompiler.Proofs.Double.Value
import ChartCompiler.Proofs.DrawnNumbers
import ChartCompiler.Proofs.ErrorBars
import ChartCompiler.Proofs.Expression.DashLists
import ChartCompiler.Proofs.Expression.HexCodes
import ChartCompiler.Proofs.Expression.Literals
import ChartCompiler.Proofs.Expression.Positions
import ChartCompiler.Proofs.Extents
import ChartCompiler.Proofs.FacetBoxes
import ChartCompiler.Proofs.FacetCells
import ChartCompiler.Proofs.Finiteness
import ChartCompiler.Proofs.FirstSeen
import ChartCompiler.Proofs.FittedLines
import ChartCompiler.Proofs.Fonts
import ChartCompiler.Proofs.Grouping
import ChartCompiler.Proofs.Indices
import ChartCompiler.Proofs.LegendNames
import ChartCompiler.Proofs.LoadedNumbers
import ChartCompiler.Proofs.Magnitudes
import ChartCompiler.Proofs.NumberTexts
import ChartCompiler.Proofs.Numbers
import ChartCompiler.Proofs.Omission
import ChartCompiler.Proofs.Orientation
import ChartCompiler.Proofs.Overlays
import ChartCompiler.Proofs.Percentages
import ChartCompiler.Proofs.Platforms
import ChartCompiler.Proofs.PlotAreas
import ChartCompiler.Proofs.Precedence
import ChartCompiler.Proofs.Presentation
import ChartCompiler.Proofs.PrintedCoordinates
import ChartCompiler.Proofs.Quantiles
import ChartCompiler.Proofs.Quartiles
import ChartCompiler.Proofs.ReadBack.Literals
import ChartCompiler.Proofs.ReadBack.Numerals
import ChartCompiler.Proofs.ReadBack.Parts
import ChartCompiler.Proofs.ReadBack.Readers
import ChartCompiler.Proofs.ReadBack.Records
import ChartCompiler.Proofs.ReadBack.Scaling
import ChartCompiler.Proofs.ReadBack.Specifications
import ChartCompiler.Proofs.ReadBack.Values
import ChartCompiler.Proofs.Readings
import ChartCompiler.Proofs.Rectangles
import ChartCompiler.Proofs.References
import ChartCompiler.Proofs.Reordering
import ChartCompiler.Proofs.Repairs
import ChartCompiler.Proofs.Requests
import ChartCompiler.Proofs.RunningSums
import ChartCompiler.Proofs.SecondaryAxis
import ChartCompiler.Proofs.SeriesNames
import ChartCompiler.Proofs.SeriesSets
import ChartCompiler.Proofs.SharedAxes
import ChartCompiler.Proofs.ShownTexts
import ChartCompiler.Proofs.Slots
import ChartCompiler.Proofs.SmallMultiples
import ChartCompiler.Proofs.StableGroups
import ChartCompiler.Proofs.StackHeights
import ChartCompiler.Proofs.Suppression
import ChartCompiler.Proofs.Validity
import ChartCompiler.Proofs.Violins
import ChartCompiler.Proofs.Whiskers
import ChartCompiler.Proofs.WrittenNumbers
import ChartCompiler.Spec.Basic
import ChartCompiler.Spec.Reader
import ChartCompiler.Spec.Validity
import ChartCompiler.Spec.Writer
import ChartCompiler.Statistics.Beta
import ChartCompiler.Statistics.Density
import ChartCompiler.Statistics.Histogram
import ChartCompiler.Statistics.Moments
import ChartCompiler.Statistics.Quantile
import ChartCompiler.Statistics.Regression
import ChartCompiler.Statistics.StudentT
import ChartCompiler.Table.Basic
import ChartCompiler.Table.Csv
import ChartCompiler.Table.Grouping
import ChartCompiler.Text.Blank
import ChartCompiler.Text.Hex
import ChartCompiler.Text.Hidden
import ChartCompiler.Text.Quoted
import ChartCompiler.Text.Terminal
