namespace PromTree

inductive ValueType where
  | none
  | vector
  | scalar
  | matrix
  | string
  deriving DecidableEq

namespace ValueType

def all : List ValueType := [.none, .vector, .scalar, .matrix, .string]

def name : ValueType → String
  | .none => "none"
  | .vector => "vector"
  | .scalar => "scalar"
  | .matrix => "matrix"
  | .string => "string"

end ValueType

inductive Aggregator where
  | sum
  | min
  | max
  | avg
  | group
  | stddev
  | stdvar
  | count
  | countValues
  | bottomk
  | topk
  | quantile
  deriving DecidableEq

namespace Aggregator

def all : List Aggregator :=
  [.sum, .min, .max, .avg, .group, .stddev, .stdvar, .count, .countValues, .bottomk, .topk,
    .quantile]

def name : Aggregator → String
  | .sum => "sum"
  | .min => "min"
  | .max => "max"
  | .avg => "avg"
  | .group => "group"
  | .stddev => "stddev"
  | .stdvar => "stdvar"
  | .count => "count"
  | .countValues => "count_values"
  | .bottomk => "bottomk"
  | .topk => "topk"
  | .quantile => "quantile"

def hasParam : Aggregator → Bool
  | .countValues | .bottomk | .topk | .quantile => true
  | _ => false

end Aggregator

inductive BinaryOp where
  | add
  | sub
  | mul
  | div
  | mod
  | pow
  | eql
  | neq
  | gtr
  | lss
  | gte
  | lte
  | and
  | or
  | unless
  | atan2
  deriving DecidableEq

namespace BinaryOp

def all : List BinaryOp :=
  [.add, .sub, .mul, .div, .mod, .pow, .eql, .neq, .gtr, .lss, .gte, .lte, .and, .or, .unless,
    .atan2]

def symbol : BinaryOp → String
  | .add => "+"
  | .sub => "-"
  | .mul => "*"
  | .div => "/"
  | .mod => "%"
  | .pow => "^"
  | .eql => "=="
  | .neq => "!="
  | .gtr => ">"
  | .lss => "<"
  | .gte => ">="
  | .lte => "<="
  | .and => "and"
  | .or => "or"
  | .unless => "unless"
  | .atan2 => "atan2"

def isComparison : BinaryOp → Bool
  | .eql | .neq | .gtr | .lss | .gte | .lte => true
  | _ => false

def isSetOperator : BinaryOp → Bool
  | .and | .or | .unless => true
  | _ => false

def precedence : BinaryOp → Nat
  | .or => 1
  | .and | .unless => 2
  | .eql | .neq | .gtr | .lss | .gte | .lte => 3
  | .add | .sub => 4
  | .mul | .div | .mod | .atan2 => 5
  | .pow => 6

def isRightAssociative : BinaryOp → Bool
  | .pow => true
  | _ => false

end BinaryOp

inductive Sign where
  | plus
  | minus
  deriving DecidableEq

namespace Sign

def all : List Sign := [.plus, .minus]

def symbol : Sign → String
  | .plus => "+"
  | .minus => "-"

def precedence : Nat := BinaryOp.mul.precedence

end Sign

inductive MatchType where
  | equal
  | notEqual
  | regexp
  | notRegexp
  deriving DecidableEq

namespace MatchType

def all : List MatchType := [.equal, .notEqual, .regexp, .notRegexp]

def symbol : MatchType → String
  | .equal => "="
  | .notEqual => "!="
  | .regexp => "=~"
  | .notRegexp => "!~"

end MatchType

inductive RangeEnd where
  | start
  | finish
  deriving DecidableEq

namespace RangeEnd

def all : List RangeEnd := [.start, .finish]

def name : RangeEnd → String
  | .start => "start"
  | .finish => "end"

end RangeEnd

inductive Cardinality where
  | oneToOne
  | manyToOne
  | oneToMany
  | manyToMany
  deriving DecidableEq

namespace Cardinality

def all : List Cardinality := [.oneToOne, .manyToOne, .oneToMany, .manyToMany]

def name : Cardinality → String
  | .oneToOne => "one-to-one"
  | .manyToOne => "many-to-one"
  | .oneToMany => "one-to-many"
  | .manyToMany => "many-to-many"

end Cardinality

end PromTree
