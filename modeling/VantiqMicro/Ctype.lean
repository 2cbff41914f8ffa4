import VantiqMicro.Block

/-! # Character classes and numerals of the C library

`isspace`, `tolower`, `strncasecmp` and `atoi` in the C locale, on bytes. -/

namespace CMem

def isspace (c : UInt8) : Bool := c == 32 || (9 ≤ c && c ≤ 13)

def isdigit (c : UInt8) : Bool := 48 ≤ c && c ≤ 57

def tolower (c : UInt8) : UInt8 := if 65 ≤ c ∧ c ≤ 90 then c + 32 else c

/-- `strncasecmp(s, t, n) == 0`, for a `t` without a zero among its first `n`
bytes. -/
def strncaseeq (s t : Bytes) (n : Nat) : Bool := (s.take n).map tolower = (t.take n).map tolower

/-- The number a string of decimal digits denotes. -/
def digitsValue (s : Bytes) : Nat := s.foldl (fun n c => 10 * n + (c.toNat - 48)) 0

/-- The largest `int`, of 32 bits. -/
def INT_MAX : Nat := 2 ^ 31 - 1

/-- The conversion `(int)n` of a length, or what an `int` counts up to. -/
def toInt (n : Nat) : Int :=
  if n % 2 ^ 32 < 2 ^ 31 then (n % 2 ^ 32 : Nat) else (n % 2 ^ 32 : Nat) - 2 ^ 32

theorem toInt_of_le {n : Nat} (h : n ≤ INT_MAX) : toInt n = n := by
  have hlt : n < 2 ^ 31 := Nat.lt_of_le_of_lt h (by decide)
  have hmod : n % 2 ^ 32 = n := Nat.mod_eq_of_lt (Nat.lt_trans hlt (by decide))
  rw [toInt, hmod, if_pos hlt]

/-- `atoi`, on a number that fits in `int`; beyond, C leaves it undefined. -/
def atoi (s : Bytes) : Int :=
  match s.dropWhile isspace with
  | 45 :: t => -(digitsValue (t.takeWhile isdigit) : Int)
  | 43 :: t => digitsValue (t.takeWhile isdigit)
  | t => digitsValue (t.takeWhile isdigit)

theorem not_isspace_of_isdigit {c : UInt8} (h : isdigit c = true) : isspace c = false := by
  simp only [isdigit, Bool.and_eq_true, decide_eq_true_eq, UInt8.le_iff_toNat_le] at h
  have h32 : (32 : UInt8).toNat = 32 := rfl
  have h13 : (13 : UInt8).toNat = 13 := rfl
  have h48 : (48 : UInt8).toNat = 48 := rfl
  have hne : c ≠ 32 := by rintro rfl; omega
  have hlt : ¬ c ≤ 13 := by rw [UInt8.le_iff_toNat_le]; omega
  simp [isspace, hne, hlt]

/-- **`atoi` reads the number that stands first**, past leading white space and up
to the first byte that is no digit. -/
theorem atoi_of_digits {ws ds rest : Bytes} (hws : ∀ c ∈ ws, isspace c = true)
    (hds : ∀ c ∈ ds, isdigit c = true) (hne : ds ≠ [])
    (hrest : ∀ c ∈ rest.head?, isdigit c = false) :
    atoi (ws ++ (ds ++ rest)) = digitsValue ds := by
  obtain ⟨d, ds', rfl⟩ := List.exists_cons_of_ne_nil hne
  have hd : isdigit d = true := hds d (List.mem_cons_self ..)
  have hspace : isspace d = false := not_isspace_of_isdigit hd
  have h45 : d ≠ 45 := by rintro rfl; exact absurd hd (by decide)
  have h43 : d ≠ 43 := by rintro rfl; exact absurd hd (by decide)
  have hdrop : (ws ++ (d :: ds' ++ rest)).dropWhile isspace = d :: ds' ++ rest := by
    rw [List.dropWhile_append_of_pos hws, List.cons_append, List.dropWhile_cons, hspace]
    rfl
  have htake : (d :: ds' ++ rest).takeWhile isdigit = d :: ds' := by
    rw [List.takeWhile_append_of_pos hds]
    cases rest with
    | nil => simp
    | cons r rest => simp [hrest r rfl]
  rw [atoi, hdrop]
  split
  · rename_i heq
    exact absurd (List.cons.inj heq).1 h45
  · rename_i heq
    exact absurd (List.cons.inj heq).1 h43
  · rw [htake]

end CMem
