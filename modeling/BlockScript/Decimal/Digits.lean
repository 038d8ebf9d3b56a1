/-!
# Decimal digits

Natural numbers as lists of digit characters, and back. Main statement: `value_digits`, a number is
read back from its digits.
-/

namespace BlockScript.Digits

def char (d : Nat) : Char := Char.ofNat ('0'.toNat + d)

def isDigit (c : Char) : Bool := '0' ≤ c && c ≤ '9'

/-- The digits of a number, most significant first, without leading zeros. -/
def digits (n : Nat) : List Char :=
  if n < 10 then [char n] else digits (n / 10) ++ [char (n % 10)]
termination_by n

def value (cs : List Char) : Nat := cs.foldl (fun n c => 10 * n + (c.toNat - '0'.toNat)) 0

theorem toNat_char {d : Nat} (h : d < 10) : (char d).toNat = '0'.toNat + d := by
  have : d = 0 ∨ d = 1 ∨ d = 2 ∨ d = 3 ∨ d = 4 ∨ d = 5 ∨ d = 6 ∨ d = 7 ∨ d = 8 ∨ d = 9 := by omega
  rcases this with rfl | rfl | rfl | rfl | rfl | rfl | rfl | rfl | rfl | rfl <;> rfl

theorem isDigit_char {d : Nat} (h : d < 10) : isDigit (char d) = true := by
  have : d = 0 ∨ d = 1 ∨ d = 2 ∨ d = 3 ∨ d = 4 ∨ d = 5 ∨ d = 6 ∨ d = 7 ∨ d = 8 ∨ d = 9 := by omega
  rcases this with rfl | rfl | rfl | rfl | rfl | rfl | rfl | rfl | rfl | rfl <;> rfl

theorem value_digits (n : Nat) : value (digits n) = n := by
  induction n using Nat.strongRecOn with
  | ind n ih =>
    rw [digits]
    split
    · next h => simp [value, toNat_char h]
    · next h =>
      have hm : n % 10 < 10 := Nat.mod_lt _ (by omega)
      have := ih (n / 10) (by omega)
      simp only [value] at this
      simp only [value, List.foldl_append, List.foldl_cons, List.foldl_nil, this, toNat_char hm]
      omega

theorem isDigit_of_mem_digits {n : Nat} {c : Char} (h : c ∈ digits n) : isDigit c = true := by
  induction n using Nat.strongRecOn with
  | ind n ih =>
    rw [digits] at h
    split at h
    · next hn => simpa [List.mem_singleton.mp h] using isDigit_char hn
    · next hn =>
      rcases List.mem_append.mp h with h | h
      · exact ih (n / 10) (by omega) h
      · simpa [List.mem_singleton.mp h] using isDigit_char (Nat.mod_lt n (by omega))

def text (n : Nat) : String := String.ofList (digits n)

/-- An integer as text: a minus in front of a negative one. -/
def intText (n : Int) : String :=
  if n < 0 then "-" ++ text n.natAbs else text n.natAbs

end BlockScript.Digits
