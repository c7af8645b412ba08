import PromTree.Expr.Operators
import PromTree.SampleValue
import PromTree.SortedMap

namespace PromTree

abbrev Labels := SortedMap String String

def metricName : String := "__name__"

structure Point where
  timestamp : Binary64
  text : String
  deriving DecidableEq

namespace Point

def value (p : Point) : Float := (SampleValue.parse p.text).toFloat

def ofValue (timestamp : Binary64) (value : Float) : Point :=
  ⟨timestamp, SampleValue.text (.ofFloat value)⟩

end Point

structure Sample where
  labels : Labels
  point : Point
  deriving DecidableEq

structure Series where
  labels : Labels
  points : List Point
  deriving DecidableEq

inductive QueryResult where
  | vector (samples : List Sample)
  | matrix (series : List Series)
  | scalar (point : Point)
  | string (point : Point)
  deriving DecidableEq

namespace QueryResult

def valueType : QueryResult → ValueType
  | .vector _ => .vector
  | .matrix _ => .matrix
  | .scalar _ => .scalar
  | .string _ => .string

def numSeries : QueryResult → Nat
  | .vector samples => samples.length
  | .matrix series => series.length
  | .scalar _ | .string _ => 1

end QueryResult

end PromTree
