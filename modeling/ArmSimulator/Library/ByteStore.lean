import Mathlib.Data.Nat.Digits.Defs
import Mathlib.Logic.Function.Basic
import Mathlib.Tactic.Common

/-! Stores indexed by machine addresses, and the byte orders of machine words.
An address range may wrap around the address space; nothing below assumes that
it does not. Only the length of a range is bounded, by the size of the space. -/
namespace ByteStore

section Store

variable {w : Nat} {α : Type*}

def load (m : BitVec w → α) (a : BitVec w) (n : Nat) : List α :=
  (List.range n).map (fun i => m (a + BitVec.ofNat w i))

def store (m : BitVec w → α) (a : BitVec w) (bs : List α) : BitVec w → α :=
  fun x => bs.getD (x - a).toNat (m x)

@[simp] theorem length_load (m : BitVec w → α) (a : BitVec w) (n : Nat) :
    (load m a n).length = n := by simp [load]

@[simp] theorem getElem_load (m : BitVec w → α) (a : BitVec w) (n i : Nat)
    (h : i < (load m a n).length) : (load m a n)[i] = m (a + BitVec.ofNat w i) := by
  simp [load]

theorem load_succ (m : BitVec w → α) (a : BitVec w) (n : Nat) :
    load m a (n + 1) = m a :: load m (a + 1#w) n := by
  rw [load, List.range_succ_eq_map, List.map_cons, List.map_map]
  congr 1
  · simp
  · apply List.map_congr_left
    intro i _
    have place : a + BitVec.ofNat w (i + 1) = a + 1#w + BitVec.ofNat w i := by
      rw [BitVec.ofNat_add, BitVec.add_assoc, BitVec.add_comm (1#w)]
    exact congrArg m place

theorem add_ofNat_sub_toNat (a : BitVec w) {i : Nat} (small : i < 2 ^ w) :
    (a + BitVec.ofNat w i - a).toNat = i := by
  rw [BitVec.add_comm, BitVec.add_sub_cancel, BitVec.toNat_ofNat, Nat.mod_eq_of_lt small]

theorem toNat_add_one_le (a : BitVec w) : (a + 1#w).toNat ≤ a.toNat + 1 := by
  rw [BitVec.toNat_add, BitVec.toNat_ofNat]
  calc (a.toNat + 1 % 2 ^ w) % 2 ^ w ≤ a.toNat + 1 % 2 ^ w := Nat.mod_le _ _
    _ ≤ a.toNat + 1 := Nat.add_le_add_left (Nat.mod_le _ _) _

theorem eq_add_ofNat_sub (x a : BitVec w) : x = a + BitVec.ofNat w (x - a).toNat := by
  rw [BitVec.ofNat_toNat, BitVec.setWidth_eq, BitVec.add_comm, BitVec.sub_add_cancel]

theorem add_ofNat_inj (a : BitVec w) {i j : Nat} (hi : i < 2 ^ w) (hj : j < 2 ^ w)
    (same : a + BitVec.ofNat w i = a + BitVec.ofNat w j) : i = j := by
  rw [← add_ofNat_sub_toNat a hi, same, add_ofNat_sub_toNat a hj]

theorem store_inside (m : BitVec w → α) (a : BitVec w) (bs : List α) {i : Nat}
    (small : i < 2 ^ w) (inside : i < bs.length) :
    store m a bs (a + BitVec.ofNat w i) = bs[i] := by
  simp only [store, add_ofNat_sub_toNat a small, List.getD_eq_getElem?_getD,
    List.getElem?_eq_getElem inside, Option.getD_some]

theorem store_outside (m : BitVec w → α) (a x : BitVec w) (bs : List α)
    (outside : bs.length ≤ (x - a).toNat) : store m a bs x = m x := by
  simp only [store, List.getD_eq_getElem?_getD, List.getElem?_eq_none outside, Option.getD_none]

theorem store_congr {m m' : BitVec w → α} {a x : BitVec w} {bs : List α}
    (same : (x - a).toNat < bs.length ∨ m' x = m x) : store m' a bs x = store m a bs x := by
  rcases same with inside | same
  · simp only [store, List.getD_eq_getElem?_getD, List.getElem?_eq_getElem inside, Option.getD_some]
  · simp only [store, same]

theorem load_store_same (m : BitVec w → α) (a : BitVec w) (bs : List α)
    (small : bs.length ≤ 2 ^ w) : load (store m a bs) a bs.length = bs := by
  apply List.ext_getElem (by simp)
  intro i hi hb
  rw [getElem_load, store_inside m a bs (by omega) hb]

theorem store_inj {m : BitVec w → α} {a : BitVec w} {as bs : List α}
    (lengths : as.length = bs.length) (small : as.length ≤ 2 ^ w)
    (same : store m a as = store m a bs) : as = bs := by
  rw [← load_store_same m a as small, same, lengths, load_store_same m a bs (lengths ▸ small)]

theorem store_nil (m : BitVec w → α) (a : BitVec w) : store m a [] = m := by
  funext x
  simp [store]

theorem store_cons (m : BitVec w → α) (a : BitVec w) (b : α) (bs : List α)
    (small : bs.length < 2 ^ w) :
    store m a (b :: bs) = store (store m a [b]) (a + 1#w) bs := by
  funext x
  have next : (x - (a + 1#w)).toNat = (2 ^ w - 1 % 2 ^ w + (x - a).toNat) % 2 ^ w := by
    rw [← BitVec.sub_sub, BitVec.toNat_sub, BitVec.toNat_ofNat]
  have room := (x - a).isLt
  cases place : (x - a).toNat with
  | zero =>
    have outside : bs.length ≤ (x - (a + 1#w)).toNat := by
      rw [next, place]
      rcases Nat.lt_or_ge 1 (2 ^ w) with wide | single
      · rw [Nat.mod_eq_of_lt wide, Nat.mod_eq_of_lt (by omega)]
        omega
      · omega
    rw [store_outside _ _ _ _ outside, store, store, place, List.getD_cons_zero,
      List.getD_cons_zero]
  | succ k =>
    have after : (x - (a + 1#w)).toNat = k := by
      rw [next, place, Nat.mod_eq_of_lt (show 1 < 2 ^ w by omega),
        show 2 ^ w - 1 + (k + 1) = k + 2 ^ w by omega, Nat.add_mod_right,
          Nat.mod_eq_of_lt (by omega)]
    simp only [store, place, after, List.getD_cons_succ, List.getD_nil]

theorem load_congr {m m' : BitVec w → α} {a : BitVec w} {n : Nat}
    (same : ∀ i < n, m (a + BitVec.ofNat w i) = m' (a + BitVec.ofNat w i)) :
    load m a n = load m' a n := by
  apply List.map_congr_left
  intro i hi
  exact same i (List.mem_range.mp hi)

theorem load_store_part (m : BitVec w → α) (a : BitVec w) (bs : List α) {k n : Nat}
    (inside : k + n ≤ bs.length) (small : bs.length ≤ 2 ^ w) :
    load (store m a bs) (a + BitVec.ofNat w k) n = (bs.drop k).take n := by
  apply List.ext_getElem
  · rw [length_load, List.length_take, List.length_drop]
    omega
  · intro i before within
    rw [length_load] at before
    rw [getElem_load, BitVec.add_assoc, ← BitVec.ofNat_add,
      store_inside m a bs (by omega) (by omega), List.getElem_take, List.getElem_drop]

theorem store_append (m : BitVec w → α) (a : BitVec w) (bs cs : List α)
    (small : bs.length + cs.length ≤ 2 ^ w) :
    store (store m a bs) (a + BitVec.ofNat w bs.length) cs = store m a (bs ++ cs) := by
  induction bs generalizing m a with
  | nil => rw [store_nil, List.length_nil, BitVec.add_zero, List.nil_append]
  | cons b bs ih =>
    rw [List.length_cons] at small
    have behind : a + BitVec.ofNat w (bs.length + 1) = a + 1#w + BitVec.ofNat w bs.length := by
      rw [Nat.add_comm, BitVec.ofNat_add, BitVec.add_assoc]
    rw [List.cons_append, store_cons m a b bs (by omega),
      store_cons m a b (bs ++ cs) (by rw [List.length_append]; omega), List.length_cons, behind,
      ih _ _ (by omega)]

theorem load_store_apart (m : BitVec w → α) (a b : BitVec w) (bs : List α) (n : Nat)
    (apart : ∀ i < n, bs.length ≤ (b + BitVec.ofNat w i - a).toNat) :
    load (store m a bs) b n = load m b n :=
  load_congr fun i hi => store_outside m a _ bs (apart i hi)

end Store

section Loop

variable {ι α : Type*} [DecidableEq ι]

def updates (m : ι → α) (f : Nat → ι) (v : Nat → α) (n : Nat) : ι → α :=
  (List.range n).foldl (fun m i => Function.update m (f i) (v i)) m

theorem updates_succ (m : ι → α) (f : Nat → ι) (v : Nat → α) (n : Nat) :
    updates m f v (n + 1) = Function.update (updates m f v n) (f n) (v n) := by
  simp [updates, List.range_succ]

theorem updates_outside (m : ι → α) (f : Nat → ι) (v : Nat → α) {n : Nat} {x : ι}
    (outside : ∀ i < n, x ≠ f i) : updates m f v n x = m x := by
  induction n with
  | zero => rfl
  | succ n ih =>
    rw [updates_succ, Function.update_of_ne (outside n (Nat.lt_succ_self n))]
    exact ih fun i hi => outside i (Nat.lt_succ_of_lt hi)

theorem updates_inside (m : ι → α) (f : Nat → ι) (v : Nat → α) {n i : Nat} (hi : i < n)
    (inj : ∀ j < n, ∀ k < n, f j = f k → j = k) : updates m f v n (f i) = v i := by
  induction n with
  | zero => omega
  | succ n ih =>
    rw [updates_succ]
    by_cases last : i = n
    · rw [last, Function.update_self]
    · have before : i < n := by omega
      have other : f i ≠ f n := fun e => last (inj i hi n (Nat.lt_succ_self n) e)
      rw [Function.update_of_ne other]
      exact ih before fun j hj k hk => inj j (by omega) k (by omega)

end Loop

section Order

variable {w : Nat}

def leBytes (n : Nat) (x : BitVec w) : List (BitVec 8) :=
  (List.range n).map (fun i => x.extractLsb' (8 * i) 8)

def leValue (bs : List (BitVec 8)) : Nat := Nat.ofDigits 256 (bs.map BitVec.toNat)

def ofLeBytes (w : Nat) (bs : List (BitVec 8)) : BitVec w := BitVec.ofNat w (leValue bs)

@[simp] theorem length_leBytes (n : Nat) (x : BitVec w) : (leBytes n x).length = n := by
  simp [leBytes]

theorem leBytes_byte (b : BitVec 8) : leBytes 1 b = [b] := by
  simp only [leBytes, List.range_one, List.map_cons, List.map_nil, Nat.mul_zero,
    BitVec.extractLsb'_eq_self]

theorem leBytes_succ (n : Nat) (x : BitVec w) :
    leBytes (n + 1) x = leBytes n x ++ [x.extractLsb' (8 * n) 8] := by
  simp [leBytes, List.range_succ]

theorem leValue_append (as bs : List (BitVec 8)) :
    leValue (as ++ bs) = leValue as + 256 ^ as.length * leValue bs := by
  simp [leValue, Nat.ofDigits_append]

theorem byte_toNat (x : BitVec w) (n : Nat) :
    (x.extractLsb' (8 * n) 8).toNat = x.toNat / 256 ^ n % 256 := by
  rw [BitVec.extractLsb'_toNat, Nat.shiftRight_eq_div_pow, Nat.pow_mul]

theorem leValue_leBytes (n : Nat) (x : BitVec w) : leValue (leBytes n x) = x.toNat % 256 ^ n := by
  induction n with
  | zero => simp [leBytes, leValue, Nat.mod_one]
  | succ n ih =>
    have last : leValue [x.extractLsb' (8 * n) 8] = x.toNat / 256 ^ n % 256 := by
      rw [← byte_toNat]
      simp [leValue]
    rw [leBytes_succ, leValue_append, ih, length_leBytes, Nat.mod_pow_succ, last]

theorem ofLeBytes_leBytes {n : Nat} (whole : w = 8 * n) (x : BitVec w) :
    ofLeBytes w (leBytes n x) = x := by
  apply BitVec.eq_of_toNat_eq
  have fits : x.toNat < 256 ^ n := by
    have space : 2 ^ w = 256 ^ n := by rw [whole, Nat.pow_mul]
    exact space ▸ x.isLt
  rw [ofLeBytes, leValue_leBytes, BitVec.toNat_ofNat, Nat.mod_eq_of_lt fits,
    Nat.mod_eq_of_lt x.isLt]

theorem leValue_lt (bs : List (BitVec 8)) : leValue bs < 256 ^ bs.length := by
  have h := Nat.ofDigits_lt_base_pow_length (b := 256) (l := bs.map BitVec.toNat) (by decide)
    (by intro d hd; obtain ⟨b, -, rfl⟩ := List.mem_map.mp hd; exact b.isLt)
  simpa [leValue] using h

theorem leValue_inj {as bs : List (BitVec 8)} (lengths : as.length = bs.length)
    (same : leValue as = leValue bs) : as = bs := by
  have small (cs : List (BitVec 8)) : ∀ d ∈ cs.map BitVec.toNat, d < 256 := by
    intro d inside
    obtain ⟨b, _, rfl⟩ := List.mem_map.mp inside
    exact b.isLt
  have digits := Nat.ofDigits_inj_of_len_eq (by decide) (by simp [lengths]) (small as)
    (small bs) same
  exact (List.map_inj_right fun _ _ => BitVec.eq_of_toNat_eq).mp digits

theorem leBytes_ofLeBytes {n : Nat} (whole : w = 8 * n) {bs : List (BitVec 8)}
    (length : bs.length = n) : leBytes n (ofLeBytes w bs) = bs := by
  have space : 2 ^ w = 256 ^ n := by rw [whole, Nat.pow_mul]
  have bound := leValue_lt bs
  rw [length] at bound
  apply leValue_inj (by rw [length_leBytes, length])
  rw [leValue_leBytes, ofLeBytes, BitVec.toNat_ofNat, space, Nat.mod_mod, Nat.mod_eq_of_lt bound]

/-- Bytes in the order of increasing addresses: as they are, or swapped end for end. -/
def ordered (swap : Bool) (bs : List (BitVec 8)) : List (BitVec 8) :=
  if swap then bs.reverse else bs

@[simp] theorem length_ordered (swap : Bool) (bs : List (BitVec 8)) :
    (ordered swap bs).length = bs.length := by cases swap <;> simp [ordered]

theorem ordered_singleton (swap : Bool) (b : BitVec 8) : ordered swap [b] = [b] := by
  cases swap <;> rfl

theorem ordered_reverse (swap : Bool) {bs : List (BitVec 8)} :
    ordered (!swap) bs = ordered swap bs ↔ bs.reverse = bs := by
  cases swap with
  | false => exact Iff.rfl
  | true => exact eq_comm

@[simp] theorem ordered_false (bs : List (BitVec 8)) : ordered false bs = bs := rfl

@[simp] theorem ordered_ordered (s t : Bool) (bs : List (BitVec 8)) :
    ordered s (ordered t bs) = ordered (s ^^ t) bs := by
  cases s <;> cases t <;> simp [ordered]

end Order

end ByteStore
