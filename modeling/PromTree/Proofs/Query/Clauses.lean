import PromTree.Query.Meaning
import PromTree.Query.Reader

namespace PromTree

theorem bind_eq_ok_iff {ε α β : Type} {x : Except ε α} {f : α → Except ε β} {b : β} :
    (x >>= f) = .ok b ↔ ∃ a, x = .ok a ∧ f a = .ok b := by
  cases x with
  | error e => simp [bind, Except.bind]
  | ok a => simp [bind, Except.bind]

namespace Token

theorem groupSide?_ne {t : Token} {side : Cardinality} (h : groupSide? t = some side) :
    side ≠ .oneToOne ∧ side ≠ .manyToMany := by
  rw [groupSide?] at h
  split at h
  · exact Option.some.inj h ▸ ⟨nofun, nofun⟩
  · exact Option.some.inj h ▸ ⟨nofun, nofun⟩
  · contradiction

theorem groupClause_side {ts rest : List Token} {g : GroupClause}
    (h : groupClause ts = .ok (some g, rest)) : g.side ≠ .oneToOne ∧ g.side ≠ .manyToMany := by
  cases ts with
  | nil => cases h
  | cons t ts =>
    simp only [groupClause] at h
    split at h
    · rename_i side ts hside
      obtain ⟨l, -, h⟩ := bind_eq_ok_iff.mp h
      cases h
      exact groupSide?_ne hside
    · rename_i side hside hparen
      cases h
      exact groupSide?_ne hside
    · cases h

theorem operatorClauses_side {ts rest : List Token} {c : OperatorClauses} {g : GroupClause}
    (h : operatorClauses ts = .ok (c, rest)) (hg : c.group = some g) :
    g.side ≠ .oneToOne ∧ g.side ≠ .manyToMany := by
  rw [operatorClauses] at h
  generalize (takeBool ts).2 = ts at h
  cases ts with
  | nil =>
    cases h
    cases hg
  | cons t ts =>
    simp only [matchingClauses] at h
    split at h
    · obtain ⟨l, -, h⟩ := bind_eq_ok_iff.mp h
      obtain ⟨r, hr, h⟩ := bind_eq_ok_iff.mp h
      cases h
      obtain ⟨group, rest⟩ := r
      obtain rfl : group = some g := hg
      exact groupClause_side hr
    · cases h
      cases hg

end Token

end PromTree
