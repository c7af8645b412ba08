import PromTree.Proofs.Expr.Stated
import PromTree.Proofs.Expr.Timestamps

namespace PromTree

theorem Signature.isFunctionName_of_callable? {name : String} {f : Signature}
    (h : callable? name = some f) : Token.isFunctionName name := by
  have hall : ∀ f ∈ callable, f.name.toList.head?.any Token.isWordStart ∧
      (f.name.toList.all fun c => Literal.isWordChar c && c.toLower == c) ∧
      (f.name ≠ "inf" ∧ f.name ≠ "nan") ∧ (Keyword.table.lookup f.name).isNone := by decide +kernel
  obtain ⟨hstart, hchars, hnumber, hkeyword⟩ := hall f (List.mem_of_find?_eq_some h)
  have hname : f.name = name := by simpa using List.find?_some h
  exact hname ▸ Token.isFunctionName_of_lower hstart hchars hnumber hkeyword

def Selector.HasBareNames (s : Selector) : Prop :=
  (s.name = "" ∨ Token.isMetricName s.name) ∧ ∀ m ∈ s.statedMatchers, Token.isIdentifier m.name

instance (s : Selector) : Decidable s.HasBareNames := inferInstanceAs (Decidable (_ ∧ _))

namespace TimeShift

def IsWritable (s : TimeShift) : Prop :=
  (s.offset = 0 ∨ Span.IsPrintable s.offset.toInt.natAbs) ∧ ∀ ms ∈ s.timestamp, IsExact ms

instance (s : TimeShift) : Decidable s.IsWritable :=
  have := Option.decidableForallMem (p := IsExact) s.timestamp
  inferInstanceAs (Decidable (_ ∧ _))

theorem isReadable_of_isWritable {s : TimeShift} (h : s.IsWritable) : s.IsReadable :=
  ⟨h.1, fun ms hms => readsBack_of_isExact (h.2 ms hms)⟩

end TimeShift

namespace Shape

/-- The names that a shape states can be written without quotes. -/
def HasBareNames : Shape → Prop
  | .aggregation _ grouping => ∀ l ∈ grouping.labels, Token.isLabel l
  | .binary _ matching _ => ∀ m ∈ matching, m.IsReadable
  | .matrixSelector s _ | .vectorSelector s => s.HasBareNames
  | _ => True

instance : (s : Shape) → Decidable s.HasBareNames
  | .aggregation _ grouping => inferInstanceAs (Decidable (∀ l ∈ grouping.labels, Token.isLabel l))
  | .binary _ matching _ => inferInstanceAs (Decidable (∀ m ∈ matching, m.IsReadable))
  | .matrixSelector s _ | .vectorSelector s => inferInstanceAs (Decidable s.HasBareNames)
  | .call _ | .subquery _ | .number _ | .paren | .string _ | .unary _ | .placeholder =>
    inferInstanceAs (Decidable True)

/-- The durations that a shape states come to something and their counts fit 32 bits, and its
timestamp is below `2 ^ 42` seconds. -/
def HasWritableTimes : Shape → Prop
  | .matrixSelector s range => s.shift.IsWritable ∧ Span.IsPrintable range.toNat
  | .subquery w => w.shift.IsWritable ∧ Span.IsPrintable w.range.toNat ∧
    (w.step = 0 ∨ Span.IsPrintable w.step.toNat)
  | .vectorSelector s => s.shift.IsWritable
  | _ => True

instance : (s : Shape) → Decidable s.HasWritableTimes
  | .matrixSelector s range =>
    inferInstanceAs (Decidable (s.shift.IsWritable ∧ Span.IsPrintable range.toNat))
  | .subquery _ => inferInstanceAs (Decidable (_ ∧ _ ∧ _))
  | .vectorSelector s => inferInstanceAs (Decidable s.shift.IsWritable)
  | .aggregation .. | .binary .. | .call _ | .number _ | .paren | .string _ | .unary _
  | .placeholder => inferInstanceAs (Decidable True)

theorem isSignedReadable_of_isStated {s : Shape} {types : List ValueType} (h : s.IsStated types)
    (hnames : s.HasBareNames) (htimes : s.HasWritableTimes) : s.IsSignedReadable := by
  cases s with
  | aggregation | binary => exact hnames
  | call func =>
    obtain ⟨f, hf, -⟩ := h
    exact Signature.isFunctionName_of_callable? hf
  | matrixSelector s range =>
    exact ⟨⟨hnames.1, hnames.2, TimeShift.isReadable_of_isWritable htimes.1⟩, htimes.2⟩
  | subquery w => exact ⟨htimes.2.1, htimes.2.2, TimeShift.isReadable_of_isWritable htimes.1⟩
  | number text =>
    obtain ⟨x, hx, rfl⟩ := h
    have hvalue := Literal.signedValue?_text hx
    obtain ⟨y, hy, -⟩ := Option.map_eq_some_iff.mp hvalue
    exact Option.isSome_of_eq_some hy
  | paren | string | unary => trivial
  | vectorSelector s => exact ⟨hnames.1, hnames.2, TimeShift.isReadable_of_isWritable htimes⟩
  | placeholder => contradiction

end Shape

namespace Expr

variable {e : Expr}

theorem everywhere_shape_iff {P : Shape → Prop} [DecidablePred P] (e : Expr) :
    e.fold (fun s below => decide (P s) && below.all id) = true ↔ e.Everywhere (P ·.shape) := by
  induction e with
  | node e ih =>
    rw [fold_eq, everywhere_iff]
    simp only [Bool.and_eq_true, decide_eq_true_eq, List.all_map, List.all_eq_true,
      Function.comp_apply, id_eq]
    exact and_congr_right fun _ => forall₂_congr ih

instance {P : Shape → Prop} [DecidablePred P] (e : Expr) : Decidable (e.Everywhere (P ·.shape)) :=
  decidable_of_iff _ e.everywhere_shape_iff

theorem isSignedReadable_of_isStated (h : e.IsStated) (hnames : e.Everywhere (·.shape.HasBareNames))
    (htimes : e.Everywhere (·.shape.HasWritableTimes)) : e.IsSignedReadable := by
  induction e with
  | node e ih =>
    refine e.isSignedReadable_iff.mpr ⟨?_, fun c hc => ?_⟩
    · exact Shape.isSignedReadable_of_isStated h.own hnames.own htimes.own
    · exact ih c hc (h.of_mem hc) (hnames.of_mem hc) (htimes.of_mem hc)

end Expr

end PromTree
