import Mathlib

/-!
# Strings and faults of the C++ sources

`std::string` is a list of characters, each of which stands for one `char`; only those in which `FSMemory::toString`
draws its lines stand for several. A call whose result the sources leave undefined, or which never returns, ends in a
`Fault`.
-/

namespace DistributedSns

abbrev Str := List Char

/-- How a call of the sources fails to return. -/
inductive Fault where
  | outOfRange
  | nullDereference
  | danglingPointer
  | deadlock
  | overflow
  | divisionByZero
  | exception
  | outOfFuel
  deriving DecidableEq, Repr

/-- A computation in two parts returns if both parts do. -/
theorem bind_eq_ok {ε α β : Type} {x : Except ε α} {f : α → Except ε β} {b : β} :
    x >>= f = .ok b ↔ ∃ a, x = .ok a ∧ f a = .ok b := by
  cases x with
  | error e => simp [bind, Except.bind]
  | ok a => simp [bind, Except.bind]

@[simp] theorem ok_bind {ε α β : Type} (a : α) (f : α → Except ε β) : Except.ok a >>= f = f a := rfl

/-- What stands in a list after `push_back`. -/
theorem getElem?_concat_eq_some {α : Type*} {l : List α} {a b : α} {n : Nat} :
    (l ++ [a])[n]? = some b ↔ l[n]? = some b ∨ n = l.length ∧ b = a := by
  constructor
  · intro h
    rcases lt_or_ge n l.length with hlt | hle
    · rw [List.getElem?_append_left hlt] at h
      exact Or.inl h
    · rw [List.getElem?_append_right hle, List.getElem?_singleton] at h
      split_ifs at h with hzero
      exact Or.inr ⟨by omega, (Option.some.inj h).symm⟩
  · rintro (h | ⟨rfl, rfl⟩)
    · rw [List.getElem?_append_left (List.getElem?_eq_some_iff.mp h).1, h]
    · exact List.getElem?_concat_length

/-- `std::to_string` of an integer. -/
def str (num : Int) : Str :=
  match num with
  | .ofNat n => Nat.toDigits 10 n
  | .negSucc n => '-' :: Nat.toDigits 10 (n + 1)

theorem toDigits_inj {m n : Nat} (h : Nat.toDigits 10 m = Nat.toDigits 10 n) : m = n := by
  rw [← Nat.ofDigitChars_ten_toDigits (n := m), h, Nat.ofDigitChars_ten_toDigits]

theorem not_mem_toDigits {n : Nat} {c : Char} (hc : c.isDigit = false) : c ∉ Nat.toDigits 10 n := by
  intro h
  rw [Nat.isDigit_of_mem_toDigits (by decide) (by decide) h] at hc
  cases hc

theorem minus_not_mem_toDigits (n : Nat) : '-' ∉ Nat.toDigits 10 n :=
  not_mem_toDigits (by decide)

theorem str_inj {m n : Int} (h : str m = str n) : m = n := by
  cases m with
  | ofNat m =>
      cases n with
      | ofNat n => rw [toDigits_inj h]
      | negSucc n =>
          have hmem : '-' ∈ str (.ofNat m) := by rw [h]; exact List.mem_cons_self
          exact absurd hmem (minus_not_mem_toDigits m)
  | negSucc m =>
      cases n with
      | ofNat n =>
          have hmem : '-' ∈ str (.ofNat n) := by rw [← h]; exact List.mem_cons_self
          exact absurd hmem (minus_not_mem_toDigits n)
      | negSucc n =>
          have hd := toDigits_inj (List.cons.inj h).2
          rw [Nat.succ_injective hd]

theorem str_ne_nil (n : Int) : str n ≠ [] := by
  cases n with
  | ofNat n => exact Nat.toDigits_ne_nil
  | negSucc n => exact List.cons_ne_nil _ _

theorem not_mem_str {c : Char} (hc : c.isDigit = false) (hminus : c ≠ '-') (n : Int) : c ∉ str n := by
  cases n with
  | ofNat n => exact not_mem_toDigits hc
  | negSucc n =>
      intro h
      rcases List.mem_cons.mp h with h | h
      · exact hminus h
      · exact not_mem_toDigits hc h

end DistributedSns
