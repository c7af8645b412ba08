import PromTree.Expr.Basic

namespace PromTree.Signature

def all : List Signature := [
  ⟨"abs", [.vector], 0, .vector⟩,
  ⟨"absent", [.vector], 0, .vector⟩,
  ⟨"absent_over_time", [.matrix], 0, .vector⟩,
  ⟨"acos", [.vector], 0, .vector⟩,
  ⟨"acosh", [.vector], 0, .vector⟩,
  ⟨"asin", [.vector], 0, .vector⟩,
  ⟨"asinh", [.vector], 0, .vector⟩,
  ⟨"atan", [.vector], 0, .vector⟩,
  ⟨"atanh", [.vector], 0, .vector⟩,
  ⟨"avg_over_time", [.matrix], 0, .vector⟩,
  ⟨"ceil", [.vector], 0, .vector⟩,
  ⟨"changes", [.matrix], 0, .vector⟩,
  ⟨"clamp", [.vector, .scalar, .scalar], 0, .vector⟩,
  ⟨"clamp_max", [.vector, .scalar], 0, .vector⟩,
  ⟨"clamp_min", [.vector, .scalar], 0, .vector⟩,
  ⟨"cos", [.vector], 0, .vector⟩,
  ⟨"cosh", [.vector], 0, .vector⟩,
  ⟨"count_over_time", [.matrix], 0, .vector⟩,
  ⟨"day_of_month", [.vector], 1, .vector⟩,
  ⟨"day_of_week", [.vector], 1, .vector⟩,
  ⟨"day_of_year", [.vector], 1, .vector⟩,
  ⟨"days_in_month", [.vector], 1, .vector⟩,
  ⟨"deg", [.vector], 0, .vector⟩,
  ⟨"delta", [.matrix], 0, .vector⟩,
  ⟨"deriv", [.matrix], 0, .vector⟩,
  ⟨"exp", [.vector], 0, .vector⟩,
  ⟨"floor", [.vector], 0, .vector⟩,
  ⟨"histogram_count", [.vector], 0, .vector⟩,
  ⟨"histogram_fraction", [.scalar, .scalar, .vector], 0, .vector⟩,
  ⟨"histogram_quantile", [.scalar, .vector], 0, .vector⟩,
  ⟨"histogram_sum", [.vector], 0, .vector⟩,
  ⟨"holt_winters", [.matrix, .scalar, .scalar], 0, .vector⟩,
  ⟨"hour", [.vector], 1, .vector⟩,
  ⟨"idelta", [.matrix], 0, .vector⟩,
  ⟨"increase", [.matrix], 0, .vector⟩,
  ⟨"irate", [.matrix], 0, .vector⟩,
  ⟨"label_join", [.vector, .string, .string, .string], -1, .vector⟩,
  ⟨"label_replace", [.vector, .string, .string, .string, .string], 0, .vector⟩,
  ⟨"last_over_time", [.matrix], 0, .vector⟩,
  ⟨"ln", [.vector], 0, .vector⟩,
  ⟨"log10", [.vector], 0, .vector⟩,
  ⟨"log2", [.vector], 0, .vector⟩,
  ⟨"mad_over_time", [.matrix], 0, .vector⟩,
  ⟨"max_over_time", [.matrix], 0, .vector⟩,
  ⟨"min_over_time", [.matrix], 0, .vector⟩,
  ⟨"minute", [.vector], 1, .vector⟩,
  ⟨"month", [.vector], 1, .vector⟩,
  ⟨"pi", [], 0, .scalar⟩,
  ⟨"predict_linear", [.matrix, .scalar], 0, .vector⟩,
  ⟨"present_over_time", [.matrix], 0, .vector⟩,
  ⟨"quantile_over_time", [.scalar, .matrix], 0, .vector⟩,
  ⟨"rad", [.vector], 0, .vector⟩,
  ⟨"rate", [.matrix], 0, .vector⟩,
  ⟨"resets", [.matrix], 0, .vector⟩,
  ⟨"round", [.vector, .scalar], 1, .vector⟩,
  ⟨"scalar", [.vector], 0, .scalar⟩,
  ⟨"sgn", [.vector], 0, .vector⟩,
  ⟨"sin", [.vector], 0, .vector⟩,
  ⟨"sinh", [.vector], 0, .vector⟩,
  ⟨"sort", [.vector], 0, .vector⟩,
  ⟨"sort_desc", [.vector], 0, .vector⟩,
  ⟨"sqrt", [.vector], 0, .vector⟩,
  ⟨"stddev_over_time", [.matrix], 0, .vector⟩,
  ⟨"stdvar_over_time", [.matrix], 0, .vector⟩,
  ⟨"sum_over_time", [.matrix], 0, .vector⟩,
  ⟨"tan", [.vector], 0, .vector⟩,
  ⟨"tanh", [.vector], 0, .vector⟩,
  ⟨"time", [], 0, .scalar⟩,
  ⟨"timestamp", [.vector], 0, .vector⟩,
  ⟨"vector", [.scalar], 0, .vector⟩,
  ⟨"year", [.vector], 1, .vector⟩
]

def find? (name : String) : Option Signature := all.find? fun f => f.name = name

def names : List String := all.map name

end PromTree.Signature
