import PromTree.Proofs.Query.Lookups

namespace PromTree

namespace Term.Reader

variable {r r' : Reader} {ts rest : List Token}

inductive Takes : Reader → List Token → Reader → List Token → Prop where
  | nothing {r r' : Reader} {ts rest : List Token} (hr : r'.lookups = r.lookups)
    (hts : Token.Passes ts rest) : Takes r ts r' rest
  | selector {fs : List Frame} {p : Pattern} {written rest : List Token}
    (hp : p.IsWrittenAs written) :
    Takes ⟨fs, none⟩ (written ++ rest) ⟨fs, some (.selector p .absent)⟩ rest
  | brackets {fs : List Frame} {t t' : Term} {b : Token.Brackets} {written rest : List Token}
    (hb : b.IsWrittenAs written) (ht : Bracketed b t t') :
    Takes ⟨fs, some t⟩ (.leftBracket :: (written ++ rest)) ⟨fs, some t'⟩ rest
  | time {fs : List Frame} {t t' : Term} {offset : Option SignedSpan} {time : EvalTime}
    {ts rest : List Token} (hts : Token.Passes ts rest)
    (ht : Modifies ⟨offset, none⟩ ⟨offset, some time⟩ t t') :
    Takes ⟨fs, some t⟩ ts ⟨fs, some t'⟩ rest
  | offset {fs : List Frame} {t t' : Term} {o : SignedSpan} {time : Option EvalTime} {k : Token}
    {written rest : List Token} (hk : k.keyword? = some .offset) (ho : o.IsWrittenAs written)
    (ht : Modifies ⟨none, time⟩ ⟨some o, time⟩ t t') :
    Takes ⟨fs, some t⟩ (k :: (written ++ rest)) ⟨fs, some t'⟩ rest

theorem takes_moves (h : Moves r ts r' rest) : r.Takes ts r' rest := by
  cases h with
  | number hx =>
    exact .nothing (by simp [Term.lookups]) (.skip (Token.isPassed_of_numeric? hx) (.refl _))
  | string => exact .nothing (by simp [Term.lookups]) (.skip rfl (.refl _))
  | selector hp => exact .selector hp
  | opens hf hts => exact .nothing (by simp [hf.lookups]) hts
  | closesEmpty hf => exact .nothing (by simp [lookups_closes hf]) (.skip rfl (.refl _))
  | closes hc hf =>
    refine .nothing ?_ (.skip rfl (.refl _))
    rw [← lookups_collapse hc]
    simp [lookups_closes hf]
  | argument hc hf =>
    refine .nothing ?_ (.skip rfl (.refl _))
    rw [← lookups_collapse hc]
    simp [lookups_collects hf]
  | operator hop hclauses hc =>
    have hts := Token.passes_operatorClauses hclauses
    refine .nothing ?_ (.skip (Token.isPassed_of_binaryOp? hop) hts)
    rw [← lookups_collapse hc]
    simp [Frame.lookups]
  | brackets hb ht => exact .brackets hb ht
  | time hts ht => exact .time hts ht
  | offset hk ho ht => exact .offset hk ho ht
  | grouping hts => exact .nothing rfl hts

def Adds {α : Type} (of : Reader → List α) (Says : List Token → List α → Prop) (r : Reader)
    (ts : List Token) (r' : Reader) (rest : List Token) : Prop :=
  ∃ as, of r' = of r ++ as ∧ ∀ {bs}, Says rest bs → Says ts (as ++ bs)

section

variable {α : Type} {of : Reader → List α} {Says : List Token → List α → Prop}

theorem adds_nothing (hr : of r' = of r) (hts : ∀ {as}, Says rest as → Says ts as) :
    Adds of Says r ts r' rest :=
  ⟨[], by rw [hr, List.append_nil], hts⟩

theorem adds_trans {r₁ : Reader} {ts₁ : List Token} (h : Adds of Says r ts r₁ ts₁)
    (h' : Adds of Says r₁ ts₁ r' rest) : Adds of Says r ts r' rest := by
  obtain ⟨as, has, hsays⟩ := h
  obtain ⟨bs, hbs, hrest⟩ := h'
  refine ⟨as ++ bs, by rw [hbs, has, List.append_assoc], fun h => ?_⟩
  rw [List.append_assoc]
  exact hsays (hrest h)

theorem adds_run (takes : ∀ {r ts r' rest}, Takes r ts r' rest → Adds of Says r ts r' rest)
    {fuel : Nat} (h : run fuel r ts = .ok r') : Adds of Says r ts r' [] := by
  refine run_induct (fun r ts => Adds of Says r ts r' []) (adds_nothing rfl id) ?_ h
  intro r ts r₁ rest hmoves hrun
  exact adds_trans (takes (takes_moves hmoves)) hrun

end

end Term.Reader

theorem Term.says_of_ofTokens {α : Type} {of : Reader → List α}
    {Says : List Token → List α → Prop} {ts : List Token} {t : Term} {as : List α}
    (takes : ∀ {r ts r' rest}, Reader.Takes r ts r' rest → Reader.Adds of Says r ts r' rest)
    (nil : Says [] []) (start : of .start = [])
    (finish : ∀ {r}, Reader.finish r = .ok t → of r = as) (h : ofTokens ts = .ok t) :
    Says ts as := by
  obtain ⟨r, hrun, hfinish⟩ := bind_eq_ok_iff.mp h
  obtain ⟨bs, hbs, hsays⟩ := Reader.adds_run takes hrun
  have hall : as = bs := by rw [← finish hfinish, hbs, start, List.nil_append]
  have hts := hsays nil
  rwa [List.append_nil, ← hall] at hts

end PromTree
