import PromTree.Expr.Operators
import PromTree.Query.Span

namespace PromTree

inductive Token where
  | word (text : String)
  | metric (name : String)
  | number (value : Binary64)
  | span (value : Span)
  | string (value : String)
  | operator (op : BinaryOp)
  | matchOperator (type : MatchType)
  | alternative
  | leftParen
  | rightParen
  | leftBrace
  | rightBrace
  | leftBracket
  | rightBracket
  | comma
  | colon
  | at
  deriving DecidableEq

inductive Keyword where
  | aggregator (op : Aggregator)
  | limitk
  | limitRatio
  | and
  | or
  | unless
  | atan2
  | offset
  | by
  | without
  | on
  | ignoring
  | groupLeft
  | groupRight
  | bool
  | start
  | finish
  | smoothed
  | anchored
  deriving DecidableEq

namespace Keyword

def table : List (String × Keyword) :=
  Aggregator.all.map (fun a => (a.name, .aggregator a)) ++
  [("limitk", .limitk), ("limit_ratio", .limitRatio), ("and", .and), ("or", .or),
    ("unless", .unless), ("atan2", .atan2), ("offset", .offset), ("by", .by),
    ("without", .without), ("on", .on), ("ignoring", .ignoring), ("group_left", .groupLeft),
    ("group_right", .groupRight), ("bool", .bool), ("start", .start), ("end", .finish),
    ("smoothed", .smoothed), ("anchored", .anchored)]

def ofWord? (text : String) : Option Keyword := table.lookup text.toLower

def isMetricName : Keyword → Bool
  | .aggregator _ | .and | .or | .unless | .offset | .by | .without | .start | .finish => true
  | _ => false

def isLabelName : Keyword → Bool
  | .limitk | .limitRatio | .smoothed | .anchored => false
  | _ => true

end Keyword

end PromTree
