import Mathlib.Data.List.Basic

/-!
# Base64

The standard alphabet with padding. What was encoded is decoded (`decode_encode`); characters outside the alphabet
are passed over.
-/

namespace Base64

/-- The character of six bits. -/
def char (n : Nat) : Char :=
  if n < 26 then Char.ofNat (n + 65)
  else if n < 52 then Char.ofNat (n + 71)
  else if n < 62 then Char.ofNat (n - 4)
  else if n = 62 then '+' else '/'

def value? (c : Char) : Option Nat :=
  if 'A' ≤ c ∧ c ≤ 'Z' then some (c.toNat - 65)
  else if 'a' ≤ c ∧ c ≤ 'z' then some (c.toNat - 71)
  else if '0' ≤ c ∧ c ≤ '9' then some (c.toNat + 4)
  else if c = '+' then some 62
  else if c = '/' then some 63
  else none

def encode : List UInt8 → List Char
  | a :: b :: c :: rest =>
    char (a.toNat / 4) :: char (a.toNat % 4 * 16 + b.toNat / 16) :: char (b.toNat % 16 * 4 + c.toNat / 64) ::
      char (c.toNat % 64) :: encode rest
  | [a, b] => [char (a.toNat / 4), char (a.toNat % 4 * 16 + b.toNat / 16), char (b.toNat % 16 * 4), '=']
  | [a] => [char (a.toNat / 4), char (a.toNat % 4 * 16), '=', '=']
  | [] => []

/-- Six bits, or `none` for the padding. -/
def sextet? (c : Char) : Option (Option Nat) := if c = '=' then some none else (value? c).map some

def bytes : List (Option Nat) → Option (List UInt8)
  | some a :: some b :: some c :: some d :: rest =>
    (bytes rest).map fun bs =>
      UInt8.ofNat (a * 4 + b / 16) :: UInt8.ofNat (b % 16 * 16 + c / 4) :: UInt8.ofNat (c % 4 * 64 + d) :: bs
  | [some a, some b, some c, none] => some [UInt8.ofNat (a * 4 + b / 16), UInt8.ofNat (b % 16 * 16 + c / 4)]
  | [some a, some b, none, none] => some [UInt8.ofNat (a * 4 + b / 16)]
  | [] => some []
  | _ => none

def decode (s : List Char) : Option (List UInt8) := bytes (s.filterMap sextet?)

theorem sextet?_char {n : Nat} (h : n < 64) : sextet? (char n) = some (some n) := by
  have hall : ∀ n < 64, sextet? (char n) = some (some n) := by decide
  exact hall n h

theorem ofNat_toNat_of_eq {a : UInt8} {n : Nat} (h : n = a.toNat) : UInt8.ofNat n = a := by
  rw [h, UInt8.ofNat_toNat]

theorem decode_encode (bs : List UInt8) : decode (encode bs) = some bs := by
  rw [decode]
  fun_induction encode bs with
  | case1 a b c rest ih =>
    have ha := a.toNat_lt
    have hb := b.toNat_lt
    have hc := c.toNat_lt
    simp only [List.filterMap_cons, sextet?_char (n := a.toNat / 4) (by omega),
      sextet?_char (n := a.toNat % 4 * 16 + b.toNat / 16) (by omega),
      sextet?_char (n := b.toNat % 16 * 4 + c.toNat / 64) (by omega), sextet?_char (n := c.toNat % 64) (by omega),
      bytes, ih, Option.map_some]
    rw [ofNat_toNat_of_eq (a := a) (by omega), ofNat_toNat_of_eq (a := b) (by omega),
      ofNat_toNat_of_eq (a := c) (by omega)]
  | case2 a b =>
    have ha := a.toNat_lt
    have hb := b.toNat_lt
    have hpad : sextet? '=' = some none := rfl
    simp only [List.filterMap_cons, List.filterMap_nil, sextet?_char (n := a.toNat / 4) (by omega),
      sextet?_char (n := a.toNat % 4 * 16 + b.toNat / 16) (by omega),
      sextet?_char (n := b.toNat % 16 * 4) (by omega), hpad, bytes]
    rw [ofNat_toNat_of_eq (a := a) (by omega), ofNat_toNat_of_eq (a := b) (by omega)]
  | case3 a =>
    have ha := a.toNat_lt
    have hpad : sextet? '=' = some none := rfl
    simp only [List.filterMap_cons, List.filterMap_nil, sextet?_char (n := a.toNat / 4) (by omega),
      sextet?_char (n := a.toNat % 4 * 16) (by omega), hpad, bytes]
    rw [ofNat_toNat_of_eq (a := a) (by omega)]
  | case4 => rfl

end Base64
