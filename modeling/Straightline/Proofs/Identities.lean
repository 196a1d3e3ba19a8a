import Straightline.Proofs.Conversion
import Straightline.Proofs.Folding

/-!
# How exact the algebraic identities are

An identity replaces an operation by one of its operands or by a literal, and bypasses the operation.
Sums, differences, products and quotients are computed in raw units, and there the two agree at all
numbers.  Powers are computed in doubles.  Of doubles it is assumed that one is neutral
(`Elementary.OneNeutral`); the ways to a double and back are part of the operation.  They do no harm to
`1^n`.  They do to `n^1`: the operation rounds a number that the identity passes on, if it is too long
for a double.  `eval_identity?` says how much that can be, and up to where it is nothing.
-/

namespace Straightline

namespace Elementary

/-- **One is neutral for powers of doubles**, as the base and as the exponent. -/
structure OneNeutral [Elementary] : Prop where
  one_pow : ∀ y, pow 1.0 y = 1.0
  pow_one : ∀ x, pow x 1.0 = x

theorem oneNeutral_ofPlainValues : @OneNeutral ofPlainValues := by
  refine @OneNeutral.mk ofPlainValues ?_ ?_
  · intro y
    change (if y = 1.0 then (1.0 : Float) else if (1.0 : Float) = 1.0 then 1.0 else _) = 1.0
    split
    · rfl
    · exact if_pos rfl
  · intro x
    exact if_pos rfl

end Elementary

namespace Number

theorem toFloat_one : toFloat one = 1.0 := by
  decide +kernel

theorem ofFloat_one {operator : String} : ofFloat operator 1.0 = .ok one := by
  obtain ⟨b, hb, _, hexact⟩ := ofFloat_toFloat operator one
  rw [← toFloat_one, hb, hexact (by decide)]

variable [Elementary]

/-- `1^n` is `1`, for every number. -/
theorem one_pow (h : Elementary.OneNeutral) (b : Number) : one.pow b = .ok one := by
  unfold pow
  rw [if_neg fun hz => absurd hz.1 (by decide), if_neg fun hz => absurd hz.1 (by decide),
    if_neg fun hz => absurd hz.1 (by decide), toFloat_one, h.one_pow, ofFloat_one]

/-- `n^1` is what `n` becomes on the way to a double and back. -/
theorem pow_one (h : Elementary.OneNeutral) (a : Number) : a.pow one = ofFloat "^" a.toFloat := by
  unfold pow
  rw [if_neg fun hz => absurd hz.2 (by decide), if_neg fun hz => absurd hz.2 (by decide),
    if_neg fun hz => absurd hz.2 (by decide), toFloat_one, h.pow_one]

end Number

namespace Target

/-- The two identities of powers. -/
theorem Expr.identity?_pow {l r e : Expr} (h : identity? l .pow r = some e) :
    l = .literal .one ∨ r = .literal .one ∧ e = l := by
  unfold identity? at h
  dsimp only at h
  split at h
  · exact Or.inl (eq_of_isLiteral ‹_›)
  split at h
  · exact Or.inr ⟨eq_of_isLiteral ‹_›, (Option.some.inj h).symm⟩
  · cases h

section

variable [Elementary] {s : Store} {l r e : Expr} {op : InfixOp} {v : Number}

/-- **One is neutral up to `exactBound`**, if it is for powers of doubles. -/
theorem neutralAt_of_exact {ps : List (Number × Number)} (hone : Elementary.OneNeutral)
    (h : ∀ p ∈ ps, p.2 = .one → p.1.raw.natAbs ≤ Number.exactBound) : NeutralAt ps := by
  intro a b hab
  refine ⟨fun ha => ha ▸ Number.one_pow hone b, ?_⟩
  rintro rfl
  obtain ⟨c, hc, -, hexact⟩ := Number.ofFloat_toFloat "^" a
  rw [Number.pow_one hone, hc, hexact (h _ hab rfl)]

/-- **How exact the algebraic identities are.**  Where an identity applies to an operation that has a
value, what it gives has one too.  It is the same value, for all numbers, unless the identity is `n^1`.
There it is the same value up to `exactBound`, and no farther than `0.1649` from it beyond. -/
theorem eval_identity? (hone : Elementary.OneNeutral) (h : Expr.identity? l op r = some e)
    (hv : s.eval (.binary l op r) = .ok v) :
    ∃ w, s.eval e = .ok w ∧ |w.raw - v.raw| ≤ 1649 ∧
      ((op = .pow → l ≠ .literal .one → w.raw.natAbs ≤ Number.exactBound) → w = v) := by
  obtain ⟨a, b, hl, hr, hv⟩ := Store.eval_binary_eq_ok.mp hv
  by_cases hpower : op = .pow ∧ l ≠ .literal .one
  · obtain ⟨rfl, hne⟩ := hpower
    obtain ⟨rfl, rfl⟩ := (Expr.identity?_pow h).resolve_left hne
    obtain rfl := Except.ok.inj hr
    obtain ⟨c, hc, hnear, hexact⟩ := Number.ofFloat_toFloat "^" a
    obtain rfl : c = v := by
      rw [InfixOp.apply, Number.pow_one hone, hc] at hv
      exact Except.ok.inj hv
    refine ⟨a, hl, abs_sub_comm a.raw c.raw ▸ hnear, ?_⟩
    exact fun hbound => (hexact (hbound rfl hne)).symm
  · have hneutral : op = .pow → NeutralAt [(a, b)] := by
      rintro rfl c d hcd
      obtain ⟨rfl, rfl⟩ := Prod.mk.inj (List.mem_singleton.mp hcd)
      have hlit : l = .literal .one := not_not.mp fun hne => hpower ⟨rfl, hne⟩
      rw [hlit] at hl
      obtain rfl := Except.ok.inj hl
      exact ⟨fun _ => Number.one_pow hone d, fun _ => Number.one_pow hone d⟩
    have hsame := (Expr.identity?_sound h hl hr hv hneutral).1
    refine ⟨v, hsame, ?_, fun _ => rfl⟩
    rw [sub_self, abs_zero]
    decide

end

/-- `-274877906944.0006`, the last number on this side whose first power is exact. -/
def lastExact : Number := .ofRaw (-2748779069440006)

/-- At the bound, `a^1` is `a`. -/
theorem eval_identity?_lastExact :
    @Store.eval .ofPlainValues ⟨[("a", lastExact)]⟩ (.binary (.ident "a") .pow (.literal .one)) =
        .ok lastExact ∧
      @Store.eval .ofPlainValues ⟨[("a", lastExact)]⟩ (.ident "a") = .ok lastExact := by
  have heval : @Store.eval .ofPlainValues ⟨[("a", lastExact)]⟩
      (.binary (.ident "a") .pow (.literal .one)) = .ok lastExact :=
    eq_ok_of_toOption (by decide +kernel)
  have hidentity : Expr.identity? (.ident "a") .pow (.literal .one) = some (.ident "a") := by
    decide +kernel
  obtain ⟨w, hw, _, hexact⟩ :=
    @eval_identity? .ofPlainValues _ _ _ _ .pow _ Elementary.oneNeutral_ofPlainValues hidentity heval
  have hsame : w = lastExact := by
    refine hexact fun _ _ => ?_
    cases hw
    decide +kernel
  exact ⟨heval, hsame ▸ hw⟩

/-- **The first power that is not exact**: with `274877906944.0007` for `a`, the value of `a^1` is
`274877906944.0006`, although one is neutral for powers of doubles. -/
theorem eval_identity?_inexact :
    @Elementary.OneNeutral .ofPlainValues ∧
      Expr.identity? (.ident "a") .pow (.literal .one) = some (.ident "a") ∧
      @Store.eval .ofPlainValues ⟨[("a", .ofRaw 2748779069440007)]⟩
        (.binary (.ident "a") .pow (.literal .one)) = .ok (.ofRaw 2748779069440006) ∧
      @Store.eval .ofPlainValues ⟨[("a", .ofRaw 2748779069440007)]⟩ (.ident "a") =
        .ok (.ofRaw 2748779069440007) :=
  ⟨Elementary.oneNeutral_ofPlainValues, by decide +kernel, eq_ok_of_toOption (by decide +kernel), rfl⟩

end Target

end Straightline
