import Mathlib.Tactic.Ring
import Turbolite.Lib.Results

/-!
# Turbolite.Lib.Checked

Arithmetic in a word of `w` bits and slices of a buffer, where a result that does not fit or a range
outside the buffer is no value. An `Outcome` is a fallible computation with the capacities it asked the
allocator for, also when it fails.
-/

namespace Checked

variable {ε α β : Type}

/-! ### Words and slices -/

/-- The sum, if it has no more than `w` bits. -/
def add? (w a b : Nat) : Option Nat := if a + b < 2 ^ w then some (a + b) else none

/-- The difference, if it is not negative. -/
def sub? (a b : Nat) : Option Nat := if b ≤ a then some (a - b) else none

/-- The product, if it has no more than `w` bits. -/
def mul? (w a b : Nat) : Option Nat := if a * b < 2 ^ w then some (a * b) else none

/-- The quotient, if the divisor is not zero. -/
def div? (a b : Nat) : Option Nat := if b = 0 then none else some (a / b)

/-- The remainder, if the divisor is not zero. -/
def mod? (a b : Nat) : Option Nat := if b = 0 then none else some (a % b)

/-- The quotient rounded up: the quotient, and one more when something is left. -/
def divCeil? (w a b : Nat) : Option Nat := do
  let d ← div? a b
  let r ← mod? a b
  if 0 < r then add? w d 1 else some d

/-- The range `start..stop` of a buffer. -/
def slice? (xs : List α) (start stop : Nat) : Option (List α) :=
  if start ≤ stop ∧ stop ≤ xs.length then some ((xs.drop start).take (stop - start)) else none

/-- A value, or the failure. -/
def orFail (e : ε) : Option α → Except ε α
  | some a => .ok a
  | none => .error e

@[simp] theorem orFail_some (e : ε) (a : α) : orFail e (some a) = .ok a := rfl

variable {w a b start stop : Nat} {xs : List α}

theorem add?_of_lt (h : a + b < 2 ^ w) : add? w a b = some (a + b) := if_pos h

theorem mul?_of_lt (h : a * b < 2 ^ w) : mul? w a b = some (a * b) := if_pos h

theorem add?_eq_some {c : Nat} : add? w a b = some c ↔ a + b < 2 ^ w ∧ c = a + b := by
  unfold add?
  split
  · rename_i h
    simp [h, eq_comm]
  · rename_i h
    simp [h]

@[simp] theorem div?_of_ne_zero (h : b ≠ 0) : div? a b = some (a / b) := if_neg h

@[simp] theorem mod?_of_ne_zero (h : b ≠ 0) : mod? a b = some (a % b) := if_neg h

/-- The division itself never overflows. -/
theorem divCeil?_of_ne_zero (ha : a < 2 ^ w) (hb : b ≠ 0) :
    divCeil? w a b = some ((a + b - 1) / b) := by
  have hpos : 0 < b := Nat.pos_of_ne_zero hb
  have hmod := Nat.mod_lt a hpos
  have hdiv := Nat.div_add_mod a b
  unfold divCeil?
  rw [div?_of_ne_zero hb, mod?_of_ne_zero hb]
  simp only [Option.bind_eq_bind, Option.bind_some]
  by_cases hr : 0 < a % b
  · have hq : (a + b - 1) / b = a / b + 1 := by
      rw [Nat.div_eq_iff hpos]
      have hexp : (a / b + 1) * b = b * (a / b) + b := by ring
      omega
    have hle : a / b + 1 ≤ a := by
      have hmul : a / b ≤ b * (a / b) := Nat.le_mul_of_pos_left _ hpos
      omega
    rw [if_pos hr, add?_of_lt (lt_of_le_of_lt hle ha), hq]
  · have hq : (a + b - 1) / b = a / b := by
      rw [Nat.div_eq_iff hpos]
      have hexp : a / b * b = b * (a / b) := by ring
      omega
    rw [if_neg hr, hq]

theorem slice?_of_le (hle : start ≤ stop) (hlen : stop ≤ xs.length) :
    slice? xs start stop = some ((xs.drop start).take (stop - start)) := if_pos ⟨hle, hlen⟩

/-- The `n` elements from `start` on. -/
theorem slice?_add {n : Nat} (h : start + n ≤ xs.length) :
    slice? xs start (start + n) = some ((xs.drop start).take n) := by
  rw [slice?_of_le (Nat.le_add_right ..) h, Nat.add_sub_cancel_left]

/-! ### Outcomes -/

/-- A result, and the sizes in bytes of the buffers that were asked for on the way to it. -/
structure Outcome (ε α : Type) where
  result : Except ε α
  reserved : List Nat := []

namespace Outcome

/-- A computation that reserves nothing. -/
def ofResult (r : Except ε α) : Outcome ε α := { result := r }

/-- `with_capacity` for `n` elements of a size in bytes. -/
def reserve (n size : Nat) : Outcome ε Unit := { result := .ok (), reserved := [n * size] }

/-- A copy of a range of a buffer of bytes, in a buffer of its own. -/
def copy (e : ε) (xs : List α) (start stop : Nat) : Outcome ε (List α) :=
  match slice? xs start stop with
  | some ys => { result := .ok ys, reserved := [ys.length] }
  | none => ofResult (.error e)

/-- One computation after the other. -/
def andThen (x : Outcome ε α) (f : α → Outcome ε β) : Outcome ε β :=
  match x.result with
  | .error e => { result := .error e, reserved := x.reserved }
  | .ok a => { result := (f a).result, reserved := x.reserved ++ (f a).reserved }

instance : Monad (Outcome ε) where
  pure a := { result := .ok a }
  bind := andThen

/-- A loop that pushes one result for each element. -/
def collect (f : β → Outcome ε α) : List β → Outcome ε (List α)
  | [] => pure []
  | x :: xs => do
    let a ← f x
    let as ← collect f xs
    pure (a :: as)

theorem ofResult_ok_bind (a : α) (f : α → Outcome ε β) : (ofResult (.ok a) >>= f) = f a := rfl

theorem copy_of_le {e : ε} {n : Nat} (h : start + n ≤ xs.length) :
    copy e xs start (start + n) = { result := .ok ((xs.drop start).take n), reserved := [n] } := by
  have hlen : ((xs.drop start).take n).length = n := by
    rw [List.length_take, List.length_drop]
    omega
  unfold copy
  rw [slice?_add h]
  dsimp only
  rw [hlen]

/-- A loop whose every turn succeeds. -/
theorem collect_ok {f : β → Outcome ε α} {g : β → α} {ns : β → List Nat} {xs : List β}
    (h : ∀ x ∈ xs, f x = { result := .ok (g x), reserved := ns x }) :
    collect f xs = { result := .ok (xs.map g), reserved := xs.flatMap ns } := by
  induction xs with
  | nil => rfl
  | cons x xs ih =>
    have hrest := ih fun y hy => h y (List.mem_cons_of_mem x hy)
    simp only [collect, h x List.mem_cons_self, hrest]
    simp [Bind.bind, andThen, pure]

end Outcome

end Checked
