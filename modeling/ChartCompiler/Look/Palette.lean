import ChartCompiler.Decimal.Numeral
import ChartCompiler.Text.Blank

/-!
# Palettes

Named lists of colours. A list is used in a circle: behind the last colour comes the first.
-/

namespace ChartCompiler

structure Palette where
  name : String
  colors : List String
  deriving Repr, DecidableEq

namespace Palette

def all : List Palette := [
  { name := "Set1"
    colors :=
      ["#e41a1c", "#377eb8", "#4daf4a", "#984ea3", "#ff7f00", "#ffff33", "#a65628", "#f781bf",
        "#999999"] },
  { name := "Set2"
    colors :=
      ["#66c2a5", "#fc8d62", "#8da0cb", "#e78ac3", "#a6d854", "#ffd92f", "#e5c494", "#b3b3b3"] },
  { name := "Set3"
    colors :=
      ["#8dd3c7", "#ffffb3", "#bebada", "#fb8072", "#80b1d3", "#fdb462", "#b3de69", "#fccde5",
        "#d9d9d9", "#bc80bd", "#ccebc5", "#ffed6f"] },
  { name := "Dark2"
    colors :=
      ["#1b9e77", "#d95f02", "#7570b3", "#e7298a", "#66a61e", "#e6ab02", "#a6761d", "#666666"] },
  { name := "Pastel1"
    colors :=
      ["#fbb4ae", "#b3cde3", "#ccebc5", "#decbe4", "#fed9a6", "#ffffcc", "#e5d8bd", "#fddaec",
        "#f2f2f2"] },
  { name := "Paired"
    colors :=
      ["#a6cee3", "#1f78b4", "#b2df8a", "#33a02c", "#fb9a99", "#e31a1c", "#fdbf6f", "#ff7f00",
        "#cab2d6", "#6a3d9a", "#ffff99", "#b15928"] },
  { name := "Category10"
    colors :=
      ["#1f77b4", "#ff7f0e", "#2ca02c", "#d62728", "#9467bd", "#8c564b", "#e377c2", "#7f7f7f",
        "#bcbd22", "#17becf"] },
  { name := "Tableau10"
    colors :=
      ["#4e79a7", "#f28e2b", "#e15759", "#76b7b2", "#59a14f", "#edc948", "#b07aa1", "#ff9da7",
        "#9c755f", "#bab0ac"] },
  { name := "Viridis"
    colors :=
      ["#440154", "#3b528b", "#21918c", "#5ec962", "#fde725"] }]

/-- The palette of a name, in any case and with white space around it. -/
def find? (name : String) : Option Palette :=
  all.find? fun p => lowerAscii p.name.toList = lowerAscii (trim name.toList)

/-- The colour of a slot. Without colours there is none. -/
def pick? (colors : List String) (slot : Nat) : Option String :=
  colors[slot % colors.length]?

end Palette

end ChartCompiler
