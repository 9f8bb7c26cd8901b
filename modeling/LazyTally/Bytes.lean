/-!
# Byte strings

Keys, values and operands are byte strings of any length.  They are ordered as
lists of bytes are: the first differing byte decides, and a proper beginning of
a string comes before the string.

## Main definitions

* `Bytes` — byte strings, with the lexicographic order of lists.
* `Bytes.order` — the three-way comparison.
* `Bytes.text` — the written form used in messages, `[107, 255]`.

## Main results

* `Bytes.order_eq_lt`, `Bytes.order_eq_eq` — the comparison decides the order.
-/

namespace LazyTally

/-- A byte string.  The order is the lexicographic order of lists. -/
abbrev Bytes := List UInt8

/-- A byte string in messages: decimal bytes in brackets, as in `[107, 255]`. -/
def Bytes.text (bytes : Bytes) : String :=
  "[" ++ ", ".intercalate (bytes.map fun byte => byte.toNat.repr) ++ "]"

namespace Bytes

/-- Compares byte strings in one pass. -/
def order : Bytes → Bytes → Ordering
  | [], [] => .eq
  | [], _ :: _ => .lt
  | _ :: _, [] => .gt
  | a :: rest, b :: others =>
      if a < b then .lt else if a = b then order rest others else .gt

theorem order_eq_lt {x y : Bytes} : order x y = .lt ↔ x < y := by
  induction x generalizing y with
  | nil => cases y <;> simp [order]
  | cons a rest ih =>
    cases y with
    | nil => simp [order]
    | cons b others =>
      rw [order, List.cons_lt_cons_iff]
      split
      · next h => simp [h]
      · next h => split <;> simp_all

theorem order_eq_eq {x y : Bytes} : order x y = .eq ↔ x = y := by
  induction x generalizing y with
  | nil => cases y <;> simp [order]
  | cons a rest ih =>
    cases y with
    | nil => simp [order]
    | cons b others =>
      rw [order, List.cons.injEq]
      split
      · next h => simp [UInt8.ne_of_lt h]
      · split <;> simp_all

/-- Of two byte strings, the one that is not first and not the same is last. -/
theorem order_eq_gt {x y : Bytes} : order x y = .gt ↔ y < x := by
  rw [← List.not_le, List.le_iff_lt_or_eq, ← order_eq_lt, ← order_eq_eq]
  cases order x y <;> simp

end Bytes
end LazyTally
