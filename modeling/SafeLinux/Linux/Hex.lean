import Mathlib.Data.List.Basic

/-!
# Hexadecimal numbers in texts

`Nat.toDigits 16` prints a number as `%x` does. `scanHex` reads one as `%x` of `sscanf` does: it
takes digits up to the first character that is none. What is printed is read back. `scanText` reads
the text between the numbers.
-/

namespace SafeLinux

/-- The value of a hexadecimal digit. -/
def hexValue (c : Char) : Option Nat :=
  if '0' ≤ c ∧ c ≤ '9' then some (c.toNat - 48)
  else if 'a' ≤ c ∧ c ≤ 'f' then some (c.toNat - 87)
  else if 'A' ≤ c ∧ c ≤ 'F' then some (c.toNat - 55)
  else none

/-- Read digits onto a number; the number and the characters left. -/
def scanHex (n : Nat) : List Char → Nat × List Char
  | [] => (n, [])
  | c :: rest =>
      match hexValue c with
      | some digit => scanHex (16 * n + digit) rest
      | none => (n, c :: rest)

theorem hexValue_digitChar {digit : Nat} (h : digit < 16) :
    hexValue digit.digitChar = some digit := by
  revert digit
  decide

theorem scanHex_digitChar {n digit : Nat} (h : digit < 16) (rest : List Char) :
    scanHex n (digit.digitChar :: rest) = scanHex (16 * n + digit) rest := by
  rw [scanHex, hexValue_digitChar h]

/-- A number that is printed is read back. -/
theorem scanHex_toDigits (n : Nat) (rest : List Char) :
    scanHex 0 (Nat.toDigits 16 n ++ rest) = scanHex n rest := by
  induction n using Nat.strongRecOn generalizing rest with
  | ind n ih =>
      by_cases hn : n < 16
      · rw [Nat.toDigits_of_lt_base hn, List.singleton_append, scanHex_digitChar hn, Nat.mul_zero,
          Nat.zero_add]
      · have hn := Nat.le_of_not_lt hn
        rw [Nat.toDigits_of_base_le (by decide) hn, List.append_assoc, List.singleton_append,
          ih (n / 16) (Nat.div_lt_self (by omega) (by decide)),
          scanHex_digitChar (Nat.mod_lt n (by decide)), Nat.div_add_mod]

/-- A number ends at a character that is no digit. -/
theorem scanHex_stop {c : Char} (h : hexValue c = none) (n : Nat) (rest : List Char) :
    scanHex n (c :: rest) = (n, c :: rest) := by
  rw [scanHex, h]

/-- Read a text; the characters left. -/
def scanText : List Char → List Char → Option (List Char)
  | [], rest => some rest
  | _ :: _, [] => none
  | c :: text, c' :: rest => if c = c' then scanText text rest else none

theorem scanText_append (text rest : List Char) : scanText text (text ++ rest) = some rest := by
  induction text with
  | nil => rfl
  | cons c text ih =>
      rw [List.cons_append, scanText, if_pos rfl]
      exact ih

end SafeLinux
