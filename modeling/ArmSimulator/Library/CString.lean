import Mathlib.Data.BitVec
import Mathlib.Data.List.Lex
import Mathlib.Tactic.Common

/-! Strings of C and the library functions on them. An array is a list of bytes,
a pointer into it the rest of the list from there on, and a string ends at the
first NUL, whatever follows it in the array. Numbers are converted as strtoul
and strtol convert them, for a `long` of the given width. -/
namespace CString

def ch (c : Char) : BitVec 8 := BitVec.ofNat 8 c.toNat

def text (s : String) : List (BitVec 8) := s.toList.map ch

/-- The string an array holds; there is none in an array without a NUL. -/
def cString : List (BitVec 8) → Option (List (BitVec 8))
  | [] => none
  | b :: rest => if b = 0#8 then some [] else (cString rest).map (b :: ·)

def upToNul (s : List (BitVec 8)) : List (BitVec 8) := s.takeWhile (· != 0#8)

/-- `index`, also called strchr: the first occurrence of a character in a string. -/
def index (c : BitVec 8) : List (BitVec 8) → Option (List (BitVec 8))
  | [] => none
  | b :: rest => if b = c then some (b :: rest) else if b = 0#8 then none else index c rest

/-- An array after the bytes from `pos` on were written; only lengths inside it make sense. -/
def overwrite (array : List (BitVec 8)) (pos : Nat) (bs : List (BitVec 8)) : List (BitVec 8) :=
  array.take pos ++ bs ++ array.drop (pos + bs.length)

def isSpace (b : BitVec 8) : Bool := b == 0x20#8 || (9#8 ≤ b && b ≤ 13#8)

section Digits

def digitValue (base : Nat) (b : BitVec 8) : Option Nat :=
  let n := b.toNat
  let value := if 48 ≤ n ∧ n ≤ 57 then some (n - 48)
    else if 65 ≤ n ∧ n ≤ 90 then some (n - 55)
    else if 97 ≤ n ∧ n ≤ 122 then some (n - 87) else none
  value.filter (· < base)

def isDigit (base : Nat) (b : BitVec 8) : Bool := (digitValue base b).isSome

def number (base : Nat) (digits : List (BitVec 8)) : Nat :=
  digits.foldl (fun n b => base * n + (digitValue base b).getD 0) 0

def lowerHex (d : Nat) : BitVec 8 := BitVec.ofNat 8 (if d < 10 then d + 48 else d + 87)

def toLower (b : BitVec 8) : BitVec 8 := if 65 ≤ b.toNat ∧ b.toNat ≤ 90 then b + 32#8 else b

/-- What `%02x` prints for an unsigned char. -/
def hex2 (b : BitVec 8) : List (BitVec 8) := [lowerHex (b.toNat / 16), lowerHex (b.toNat % 16)]

end Digits

section Scanning

def signLength (item : List (BitVec 8)) : Nat :=
  if item.head? = some (ch '+') ∨ item.head? = some (ch '-') then 1 else 0

def markLength (item : List (BitVec 8)) : Nat :=
  if item.head? = some (ch '0') ∧ (item[1]? = some (ch 'x') ∨ item[1]? = some (ch 'X')) then 2
  else 0

/-- The value of `%x` stored in an unsigned int, and the length of its text. -/
def hexItem (long : Nat) (item : List (BitVec 8)) : Option (BitVec 32 × Nat) :=
  let start := signLength item + markLength (item.drop (signLength item))
  let digits := (item.drop start).takeWhile (isDigit 16)
  let n := number 16 digits
  let value := if 2 ^ long ≤ n then 2 ^ long - 1
    else if item.head? = some (ch '-') then 2 ^ long - n else n
  if digits = [] then none else some (BitVec.ofNat 32 value, start + digits.length)

def scanHex (long : Nat) (s : List (BitVec 8)) : Option (BitVec 32 × List (BitVec 8)) :=
  let item := s.dropWhile isSpace
  (hexItem long item).map fun r => (r.1, item.drop r.2)

def scanHexField (long width : Nat) (s : List (BitVec 8)) : Option (BitVec 32) :=
  (hexItem long ((s.dropWhile isSpace).take width)).map Prod.fst

/-- `%x,%x`: how many conversions succeed is seen from the values. -/
def scanHexPair (long : Nat) (s : List (BitVec 8)) : Option (BitVec 32) × Option (BitVec 32) :=
  match scanHex long s with
  | none => (none, none)
  | some (first, rest) =>
    (some first, if rest.head? = some (ch ',') then (scanHex long rest.tail).map Prod.fst else none)

/-- `atoi`, the int of strtol. -/
def atoi (long : Nat) (s : List (BitVec 8)) : BitVec 32 :=
  let item := s.dropWhile isSpace
  let n := number 10 ((item.drop (signLength item)).takeWhile (isDigit 10))
  BitVec.ofInt 32 (if item.head? = some (ch '-') then max (-(n : Int)) (-(2 : Int) ^ (long - 1))
    else min n (2 ^ (long - 1) - 1))

end Scanning

section Arrays

variable {array t bs : List (BitVec 8)} {pos : Nat}

theorem length_overwrite (inside : pos + bs.length ≤ array.length) :
    (overwrite array pos bs).length = array.length := by
  simp only [overwrite, List.length_append, List.length_take, List.length_drop]
  omega

theorem overwrite_begins (begins : t <+: array) (bs : List (BitVec 8)) :
    t ++ bs <+: overwrite array t.length bs := by
  obtain ⟨rest, rfl⟩ := begins
  simp [overwrite]

theorem overwrite_again (inside : pos + bs.length + 1 ≤ array.length) (c : BitVec 8)
    (nonempty : t ≠ []) : overwrite (overwrite array pos (bs ++ [c])) (pos + bs.length) t =
      overwrite array pos (bs ++ t) := by
  obtain ⟨front, rest, rfl, rfl⟩ : ∃ front rest, array = front ++ rest ∧ pos = front.length :=
    ⟨array.take pos, array.drop pos, (List.take_append_drop pos array).symm, by simp; omega⟩
  have positive := List.length_pos_iff.mpr nonempty
  have later : bs.length + t.length = bs.length + 1 + (t.length - 1) := by omega
  have beyond : bs.drop (bs.length + 1 + (t.length - 1)) = [] := List.drop_eq_nil_of_le (by omega)
  have step : bs.length + 1 + (t.length - 1) - bs.length = t.length - 1 + 1 := by omega
  have cut : overwrite (front ++ rest) front.length (bs ++ [c]) =
      front ++ bs ++ (c :: rest.drop (bs.length + 1)) := by
    simp [overwrite]
  rw [cut, overwrite, overwrite, ← List.length_append, List.take_left, List.length_append,
    List.length_append, Nat.add_assoc, later]
  simp [List.drop_append, beyond, step]

end Arrays

section Strings

theorem cString_append {s : List (BitVec 8)} (clean : 0#8 ∉ s) (rest : List (BitVec 8)) :
    cString (s ++ 0#8 :: rest) = some s := by
  induction s with
  | nil => rfl
  | cons b s ih =>
    simp only [List.mem_cons, not_or] at clean
    rw [List.cons_append, cString, if_neg (Ne.symm clean.1), ih clean.2, Option.map_some]

theorem cString_terminated (s rest : List (BitVec 8)) :
    cString (s ++ 0#8 :: rest) = some (upToNul s) := by
  induction s with
  | nil => rfl
  | cons b s ih =>
    rw [List.cons_append, cString, ih]
    split <;> simp_all [upToNul]

theorem cString_cons {b : BitVec 8} (visible : b ≠ 0#8) (rest : List (BitVec 8)) :
    cString (b :: rest) = (cString rest).map (b :: ·) := if_neg visible

theorem cString_clean_append {s : List (BitVec 8)} (clean : 0#8 ∉ s) (rest : List (BitVec 8)) :
    cString (s ++ rest) = (cString rest).map (s ++ ·) := by
  induction s with
  | nil => simp
  | cons b s ih =>
    simp only [List.mem_cons, not_or] at clean
    rw [List.cons_append, cString_cons (Ne.symm clean.1), ih clean.2, Option.map_map]
    rfl

theorem index_append {c : BitVec 8} {s : List (BitVec 8)} (absent : c ∉ s) (clean : 0#8 ∉ s)
    (rest : List (BitVec 8)) : index c (s ++ c :: rest) = some (c :: rest) := by
  induction s with
  | nil => simp [index]
  | cons b s ih =>
    simp only [List.mem_cons, not_or] at absent clean
    rw [List.cons_append, index, if_neg (Ne.symm absent.1), if_neg (Ne.symm clean.1),
      ih absent.2 clean.2]

end Strings

section Conversions

def hexDigits : List (BitVec 8) := text "0123456789abcdefABCDEF"

theorem isDigit_iff : ∀ b : BitVec 8, isDigit 16 b = true ↔ b ∈ hexDigits := by decide +kernel

theorem isSpace_digit : ∀ b : BitVec 8, isDigit 16 b = true → isSpace b = false := by decide +kernel

theorem digit_ne {b c : BitVec 8} (digit : isDigit 16 b = true) (other : isDigit 16 c = false) :
    b ≠ c := by
  rintro rfl
  simp [digit] at other

theorem digitValue_lowerHex {d : Nat} (small : d < 16) : digitValue 16 (lowerHex d) = some d := by
  have every : ∀ d : Fin 16, digitValue 16 (lowerHex d) = some d.val := by decide
  exact every ⟨d, small⟩

theorem digit_small {b : BitVec 8} {base d : Nat} (digit : digitValue base b = some d) :
    d < base := by
  simpa using (Option.filter_eq_some_iff.mp digit).2

theorem isDigit_lowerHex {d : Nat} (small : d < 16) : isDigit 16 (lowerHex d) = true := by
  simp [isDigit, digitValue_lowerHex small]

@[simp] theorem length_hex2 (b : BitVec 8) : (hex2 b).length = 2 := rfl

theorem isDigit_hex2 (b : BitVec 8) : ∀ c ∈ hex2 b, isDigit 16 c = true := by
  intro c member
  have small := b.isLt
  rcases List.mem_cons.mp member with rfl | later
  · exact isDigit_lowerHex (by omega)
  · obtain rfl := List.mem_singleton.mp later
    exact isDigit_lowerHex (by omega)

theorem number_hex2 (b : BitVec 8) : number 16 (hex2 b) = b.toNat := by
  have small := b.isLt
  simp only [number, hex2, List.foldl_cons, List.foldl_nil, digitValue_lowerHex
    (show b.toNat / 16 < 16 by omega), digitValue_lowerHex (show b.toNat % 16 < 16 by omega),
    Option.getD_some]
  omega

theorem digitValue_isDigit {b : BitVec 8} (digit : isDigit 16 b = true) :
    ∃ n < 16, digitValue 16 b = some n ∧ lowerHex n = toLower b := by
  have lower : ∀ b : BitVec 8, isDigit 16 b = true →
      lowerHex ((digitValue 16 b).getD 0) = toLower b := by
    decide +kernel
  obtain ⟨n, value⟩ := Option.isSome_iff_exists.mp digit
  have same := lower b digit
  rw [value, Option.getD_some] at same
  exact ⟨n, digit_small value, value, same⟩

theorem hex2_number {c d : BitVec 8} (high : isDigit 16 c = true) (low : isDigit 16 d = true) :
    hex2 (BitVec.ofNat 8 (number 16 [c, d])) = [toLower c, toLower d] := by
  obtain ⟨m, smallM, valueM, lowerM⟩ := digitValue_isDigit high
  obtain ⟨n, smallN, valueN, lowerN⟩ := digitValue_isDigit low
  have value : (BitVec.ofNat 8 (number 16 [c, d])).toNat = 16 * m + n := by
    simp only [number, List.foldl_cons, List.foldl_nil, valueM, valueN, Option.getD_some,
      BitVec.toNat_ofNat]
    omega
  rw [hex2, value, ← lowerM, ← lowerN, show (16 * m + n) / 16 = m by omega,
    show (16 * m + n) % 16 = n by omega]

def lowerHexDigits : List (BitVec 8) := text "0123456789abcdef"

theorem hex2_lower (b : BitVec 8) : ∀ c ∈ hex2 b, c ∈ lowerHexDigits := by
  have every : ∀ d : Fin 16, lowerHex d ∈ lowerHexDigits := by decide
  have small := b.isLt
  intro c member
  rcases List.mem_cons.mp member with rfl | later
  · exact every ⟨b.toNat / 16, by omega⟩
  · obtain rfl := List.mem_singleton.mp later
    exact every ⟨b.toNat % 16, by omega⟩

theorem number_pair_lt {c d : BitVec 8} : number 16 [c, d] < 256 := by
  have digit (b : BitVec 8) : (digitValue 16 b).getD 0 < 16 := by
    cases value : digitValue 16 b with
    | none => decide
    | some n => exact digit_small value
  have high := digit c
  have low := digit d
  simp only [number, List.foldl_cons, List.foldl_nil]
  omega

/-- What ends a hexadecimal number, a marker 0x included. -/
def EndsNumber (rest : List (BitVec 8)) : Prop :=
  ∀ b, rest.head? = some b → isDigit 16 b = false ∧ b ≠ ch 'x' ∧ b ≠ ch 'X'

theorem endsNumber_nil : EndsNumber [] := by simp [EndsNumber]

variable {digits rest : List (BitVec 8)}

theorem takeWhile_digits (all : ∀ b ∈ digits, isDigit 16 b = true) (ends : EndsNumber rest) :
    (digits ++ rest).takeWhile (isDigit 16) = digits := by
  rw [List.takeWhile_append_of_pos all]
  cases rest with
  | nil => simp
  | cons b rest => simp [(ends b rfl).1]

/-- What `%x` stores for a number: the unsigned long of strtoul, cut to an unsigned int. -/
def hexValue (long n : Nat) : BitVec 32 := BitVec.ofNat 32 (min n (2 ^ long - 1))

theorem hexValue_le (long n : Nat) : (hexValue long n).toNat ≤ n :=
  (Nat.mod_le _ _).trans (Nat.min_le_left _ _)

theorem hexValue_fits {long n : Nat} (wide : 32 ≤ long) (fits : n < 2 ^ 32) :
    hexValue long n = BitVec.ofNat 32 n := by
  have space : 2 ^ 32 ≤ 2 ^ long := Nat.pow_le_pow_right (by decide) wide
  rw [hexValue, Nat.min_eq_left (by omega)]

theorem hexItem_number (long : Nat) (some_digit : digits ≠ [])
    (all : ∀ b ∈ digits, isDigit 16 b = true) (ends : EndsNumber rest) :
    hexItem long (digits ++ rest) =
      some (hexValue long (number 16 digits), digits.length) := by
  obtain ⟨first, others, rfl⟩ := List.exists_cons_of_ne_nil some_digit
  have known : isDigit 16 first = true := all first (by simp)
  have noPlus : first ≠ ch '+' := digit_ne known (by decide)
  have noMinus : first ≠ ch '-' := digit_ne known (by decide)
  have unsigned : signLength (first :: others ++ rest) = 0 := by simp [signLength, noPlus, noMinus]
  have unmarked : markLength (first :: others ++ rest) = 0 := by
    have second : ∀ b, (others ++ rest).head? = some b → b ≠ ch 'x' ∧ b ≠ ch 'X' := by
      intro b here
      cases others with
      | nil => exact (ends b here).2
      | cons c others =>
        obtain rfl := Option.some.inj here
        have known : isDigit 16 c = true := all c (by simp)
        exact ⟨digit_ne known (by decide), digit_ne known (by decide)⟩
    rw [markLength, if_neg]
    rintro ⟨-, marker⟩
    simp only [List.cons_append, List.getElem?_cons_succ, ← List.head?_eq_getElem?] at marker
    rcases marker with here | here
    · exact (second _ here).1 rfl
    · exact (second _ here).2 rfl
  have taken := takeWhile_digits all ends
  have least (n : Nat) : (if 2 ^ long ≤ n then 2 ^ long - 1 else n) = min n (2 ^ long - 1) := by
    split <;> omega
  simp only [hexItem, unsigned, List.drop_zero, unmarked, Nat.zero_add, taken]
  simp [noMinus, least, hexValue]

theorem scanHex_number (long : Nat) (some_digit : digits ≠ [])
    (all : ∀ b ∈ digits, isDigit 16 b = true) (ends : EndsNumber rest) :
    scanHex long (digits ++ rest) = some (hexValue long (number 16 digits), rest) := by
  have item : (digits ++ rest).dropWhile isSpace = digits ++ rest := by
    obtain ⟨first, others, rfl⟩ := List.exists_cons_of_ne_nil some_digit
    simp [isSpace_digit first (all first (by simp))]
  simp [scanHex, item, hexItem_number long some_digit all ends]

theorem scanHex_digits {long : Nat} (wide : 32 ≤ long) (some_digit : digits ≠ [])
    (all : ∀ b ∈ digits, isDigit 16 b = true) (ends : EndsNumber rest)
    (fits : number 16 digits < 2 ^ 32) :
    scanHex long (digits ++ rest) = some (BitVec.ofNat 32 (number 16 digits), rest) := by
  rw [scanHex_number long some_digit all ends, hexValue_fits wide fits]

theorem not_mem_of_digits (all : ∀ b ∈ digits, isDigit 16 b = true) {c : BitVec 8}
    (other : isDigit 16 c = false) : c ∉ digits :=
  fun inside => digit_ne (all c inside) other rfl

theorem cString_digits (all : ∀ b ∈ digits, isDigit 16 b = true) {s : List (BitVec 8)}
    (string : cString rest = some s) : cString (digits ++ rest) = some (digits ++ s) := by
  rw [cString_clean_append (not_mem_of_digits all (by decide)), string, Option.map_some]

theorem number_append (base : Nat) (digits : List (BitVec 8)) (d : BitVec 8) :
    number base (digits ++ [d]) = base * number base digits + (digitValue base d).getD 0 := by
  rw [number, List.foldl_append]
  rfl

theorem number_zeros (base n : Nat) (pos : 0 < base) :
    number base (List.replicate n (ch '0')) = 0 := by
  have zero : digitValue base (ch '0') = some 0 := by
    simp [digitValue, ch, pos]
  induction n with
  | zero => rfl
  | succ n ih => rw [List.replicate_succ', number_append, ih, zero, Nat.mul_zero, Option.getD_some]

theorem zeros_of_number {digits : List (BitVec 8)} (all : ∀ b ∈ digits, isDigit 16 b = true)
    (zero : number 16 digits = 0) : digits = List.replicate digits.length (ch '0') := by
  have only : ∀ b : BitVec 8, isDigit 16 b = true → (digitValue 16 b).getD 0 = 0 → b = ch '0' := by
    decide +kernel
  induction digits using List.reverseRecOn with
  | nil => rfl
  | append_singleton digits d ih =>
    rw [number_append] at zero
    have known := all d (by simp)
    have before := ih (fun b inside => all b (by simp [inside])) (by omega)
    rw [List.length_append, List.length_singleton, List.replicate_succ', ← before,
      only d known (by omega)]

theorem one_digit {digits : List (BitVec 8)} {n : Nat} (nonempty : digits ≠ [])
    (all : ∀ b ∈ digits, isDigit 16 b = true) (value : number 16 digits = n) (small : n < 16) :
    ∃ zeros d, digits = List.replicate zeros (ch '0') ++ [d] ∧ digitValue 16 d = some n := by
  obtain ⟨front, d, rfl⟩ : ∃ front d, digits = front ++ [d] :=
    ⟨digits.dropLast, digits.getLast nonempty, (List.dropLast_append_getLast nonempty).symm⟩
  rw [number_append] at value
  have before : front = List.replicate front.length (ch '0') :=
    zeros_of_number (fun b inside => all b (by simp [inside])) (by omega)
  obtain ⟨m, known⟩ := Option.isSome_iff_exists.mp (all d (by simp))
  rw [known, Option.getD_some] at value
  have zero : number 16 front = 0 := by omega
  refine ⟨front.length, d, by rw [← before], ?_⟩
  rw [known, ← value, zero, Nat.mul_zero, Nat.zero_add]

/-- The decimal digits at the beginning of hexadecimal ones are what `atoi` reads. -/
theorem atoi_digits {digits : List (BitVec 8)} {long : Nat} (wide : 32 ≤ long)
    (all : ∀ b ∈ digits, isDigit 16 b = true)
    (small : number 10 (digits.takeWhile (isDigit 10)) < 2 ^ 31) :
    atoi long digits = BitVec.ofNat 32 (number 10 (digits.takeWhile (isDigit 10))) := by
  have space : 2 ^ 31 ≤ 2 ^ (long - 1) := Nat.pow_le_pow_right (by decide) (by omega)
  have item : digits.dropWhile isSpace = digits := by
    cases digits with
    | nil => rfl
    | cons first others => simp [isSpace_digit first (all first (by simp))]
  have noSign (c : BitVec 8) (other : isDigit 16 c = false) : digits.head? ≠ some c := by
    intro first
    exact digit_ne (all c (List.mem_of_mem_head? first)) other rfl
  have plus := noSign (ch '+') (by decide)
  have minus := noSign (ch '-') (by decide)
  have least : min (number 10 (digits.takeWhile (isDigit 10)) : Int) (2 ^ (long - 1) - 1) =
      number 10 (digits.takeWhile (isDigit 10)) := by
    have cast : (2 : Int) ^ (long - 1) = ((2 ^ (long - 1) : Nat) : Int) := by norm_cast
    rw [cast]
    omega
  simp only [atoi, item, signLength, plus, minus, or_self, if_false, List.drop_zero, least]
  exact BitVec.ofInt_natCast 32 _

/-- A number of one hexadecimal digit is read by `atoi` as what it is up to 9, and above as 0. -/
theorem atoi_one_digit {digits : List (BitVec 8)} {n long : Nat} (wide : 32 ≤ long)
    (nonempty : digits ≠ []) (all : ∀ b ∈ digits, isDigit 16 b = true)
    (value : number 16 digits = n) (small : n < 16) :
    atoi long digits = BitVec.ofNat 32 (if n ≤ 9 then n else 0) := by
  have decimal : ∀ b : BitVec 8, digitValue 10 b = (digitValue 16 b).filter (· < 10) := by
    decide +kernel
  obtain ⟨zeros, d, rfl, known⟩ := one_digit nonempty all value small
  have last := decimal d
  rw [known] at last
  have read : number 10 ((List.replicate zeros (ch '0') ++ [d]).takeWhile (isDigit 10)) =
      if n ≤ 9 then n else 0 := by
    rw [List.takeWhile_append_of_pos fun b inside => List.eq_of_mem_replicate inside ▸ rfl]
    by_cases low : n ≤ 9
    · have digit : digitValue 10 d = some n := by rw [last]; simp; omega
      have kept : [d].takeWhile (isDigit 10) = [d] := by simp [isDigit, digit]
      rw [kept, number_append, number_zeros 10 zeros (by decide), digit, if_pos low,
        Option.getD_some, Nat.mul_zero, Nat.zero_add]
    · have letter : digitValue 10 d = none := by rw [last]; simp; omega
      have dropped : [d].takeWhile (isDigit 10) = [] := by simp [isDigit, letter]
      rw [dropped, List.append_nil, number_zeros 10 zeros (by decide), if_neg low]
  rw [atoi_digits wide all (by rw [read]; split <;> omega), read]

variable {long : Nat} {c d : BitVec 8}

theorem hexItem_pair (wide : 32 ≤ long) (all : ∀ b ∈ [c, d], isDigit 16 b = true) :
    hexItem long [c, d] = some (BitVec.ofNat 32 (number 16 [c, d]), 2) := by
  have small := number_pair_lt (c := c) (d := d)
  have item := hexItem_number long (List.cons_ne_nil c [d]) all endsNumber_nil
  rwa [List.append_nil, hexValue_fits wide (by omega)] at item

theorem scanHex_pair (wide : 32 ≤ long) (all : ∀ b ∈ [c, d], isDigit 16 b = true) :
    scanHex long [c, d] = some (BitVec.ofNat 32 (number 16 [c, d]), []) := by
  have small := number_pair_lt (c := c) (d := d)
  have item := scanHex_digits wide (List.cons_ne_nil c [d]) all endsNumber_nil (by omega)
  rwa [List.append_nil] at item

end Conversions

section Comparison

/-- Characters compare as unsigned, and the NUL at the end of a string is below any other. -/
def strcmp : List (BitVec 8) → List (BitVec 8) → Int
  | [], [] => 0
  | [], b :: _ => -b.toNat
  | a :: _, [] => a.toNat
  | a :: s, b :: t => if a = b then strcmp s t else a.toNat - b.toNat

structure Str where
  chars : List (BitVec 8)
  noNul : 0#8 ∉ chars

def Str.codes (s : Str) : List Nat := s.chars.map BitVec.toNat

theorem Str.codes_injective : Function.Injective Str.codes := by
  rintro ⟨s, _⟩ ⟨t, _⟩ same
  have chars : s = t := List.map_injective_iff.mpr (fun _ _ => BitVec.eq_of_toNat_eq) same
  subst chars
  rfl

instance : LinearOrder Str := LinearOrder.lift' Str.codes Str.codes_injective

theorem strcmp_antisymm (s t : List (BitVec 8)) : strcmp t s = -strcmp s t := by
  induction s generalizing t with
  | nil => cases t <;> simp [strcmp]
  | cons a s ih =>
    cases t with
    | nil => simp [strcmp]
    | cons b t =>
      by_cases same : a = b
      · subst same
        simpa [strcmp] using ih t
      · simp only [strcmp, if_neg same, if_neg (Ne.symm same)]
        omega

theorem strcmp_neg_codes {s t : List (BitVec 8)} (clean : 0#8 ∉ t) :
    strcmp s t < 0 ↔ s.map BitVec.toNat < t.map BitVec.toNat := by
  induction s generalizing t with
  | nil =>
    cases t with
    | nil => simp [strcmp]
    | cons b t =>
      have visible : b.toNat ≠ 0 := fun zero =>
        clean (List.mem_cons.mpr (.inl (BitVec.eq_of_toNat_eq zero.symm)))
      simp only [strcmp, List.map_nil, List.map_cons, List.nil_lt_cons, iff_true]
      omega
  | cons a s ih =>
    cases t with
    | nil =>
      simp only [strcmp, List.map_nil, List.not_lt_nil, iff_false]
      omega
    | cons b t =>
      have later : 0#8 ∉ t := fun inside => clean (List.mem_cons_of_mem b inside)
      rw [List.map_cons, List.map_cons, List.cons_lt_cons_iff, ← ih later]
      by_cases same : a = b
      · subst same
        simp [strcmp]
      · have other : a.toNat ≠ b.toNat := fun codes => same (BitVec.eq_of_toNat_eq codes)
        simp only [strcmp, if_neg same, other, false_and, or_false]
        omega

theorem strcmp_neg_iff (s t : Str) : strcmp s.chars t.chars < 0 ↔ s < t :=
  strcmp_neg_codes t.noNul

theorem strcmp_pos_iff (s t : Str) : 0 < strcmp s.chars t.chars ↔ t < s := by
  rw [← strcmp_neg_iff, strcmp_antisymm s.chars t.chars]
  omega

theorem strcmp_zero_iff (s t : Str) : strcmp s.chars t.chars = 0 ↔ s = t := by
  have below := strcmp_neg_iff s t
  have above := strcmp_pos_iff s t
  constructor
  · intro zero
    exact le_antisymm (not_lt.mp fun less => by have := above.mpr less; omega)
      (not_lt.mp fun less => by have := below.mpr less; omega)
  · rintro rfl
    have notBelow := mt below.mp (lt_irrefl s)
    have notAbove := mt above.mp (lt_irrefl s)
    omega

end Comparison

end CString
