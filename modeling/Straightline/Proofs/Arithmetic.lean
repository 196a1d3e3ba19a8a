import Straightline.Operator

/-!
# Laws of fixed-point arithmetic

Zero is neutral for sums and differences and absorbs products, one is neutral for products and
quotients.  None of this is lost to truncation or saturation: an operand is always in range.
-/

namespace Straightline.Number

theorem eq_of_raw {a b : Number} (h : a.raw = b.raw) : a = b := by
  cases a
  cases b
  cases h
  rfl

theorem raw_ofRaw {n : Int} (h : rawMin ≤ n) (h' : n ≤ rawMax) : (ofRaw n).raw = n := by
  rw [ofRaw, dif_neg (by omega), dif_neg (by omega)]

@[simp] theorem ofRaw_raw (a : Number) : ofRaw a.raw = a :=
  eq_of_raw (raw_ofRaw a.rawMin_le a.le_rawMax)

@[simp] theorem raw_zero : zero.raw = 0 := rfl

@[simp] theorem raw_one : one.raw = scale := rfl

@[simp] theorem zero_add (a : Number) : zero.add a = a := by simp [add]

@[simp] theorem add_zero (a : Number) : a.add zero = a := by simp [add]

@[simp] theorem sub_zero (a : Number) : a.sub zero = a := by simp [sub]

@[simp] theorem zero_mul (a : Number) : zero.mul a = zero := by
  rw [mul, raw_zero, Int.zero_mul, Int.zero_tdiv]
  rfl

@[simp] theorem mul_zero (a : Number) : a.mul zero = zero := by
  rw [mul, raw_zero, Int.mul_zero, Int.zero_tdiv]
  rfl

@[simp] theorem one_mul (a : Number) : one.mul a = a := by
  rw [mul, raw_one, Int.mul_tdiv_cancel_left _ (by decide), ofRaw_raw]

@[simp] theorem mul_one (a : Number) : a.mul one = a := by
  rw [mul, raw_one, Int.mul_tdiv_cancel _ (by decide), ofRaw_raw]

@[simp] theorem div_one (a : Number) : a.div one = .ok a := by
  rw [div, raw_one, if_neg (by decide), Int.mul_tdiv_cancel _ (by decide), ofRaw_raw]

@[simp] theorem isTrue_ofBool (b : Bool) : (ofBool b).isTrue = b := by
  cases b <;> decide

end Straightline.Number
