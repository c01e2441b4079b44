import Mathlib.Data.List.Basic
import Mathlib.Logic.Function.Basic

/-! Stores written key by key. `apart k k'` says that a write at `k` leaves what
is read at `k'` alone. -/
namespace KeyedStore

variable {σ κ ν : Type*}

structure Lawful (write : σ → κ → ν → σ) (read : σ → κ → ν) (apart : κ → κ → Prop) : Prop where
  same : ∀ s k v, read (write s k v) k = v
  other : ∀ s k k' v, apart k k' → read (write s k v) k' = read s k'

def writeAll (write : σ → κ → ν → σ) (s : σ) (ps : List (κ × ν)) : σ :=
  ps.foldl (fun s p => write s p.1 p.2) s

section Lists

variable {write : σ → κ → ν → σ} {s : σ} {ps : List (κ × ν)}

@[simp] theorem writeAll_cons (p : κ × ν) :
    writeAll write s (p :: ps) = writeAll write (write s p.1 p.2) ps := rfl

theorem writeAll_frame {τ : Type*} {f : σ → τ}
    (frame : ∀ s, ∀ p ∈ ps, f (write s p.1 p.2) = f s) : f (writeAll write s ps) = f s := by
  induction ps generalizing s with
  | nil => rfl
  | cons p ps ih =>
    rw [writeAll_cons, ih fun s q inside => frame s q (List.mem_cons_of_mem p inside),
      frame s p List.mem_cons_self]

end Lists

namespace Lawful

variable {write : σ → κ → ν → σ} {read : σ → κ → ν} {apart : κ → κ → Prop}
  (lawful : Lawful write read apart) (s : σ) {ps : List (κ × ν)}
include lawful

theorem read_apart {k : κ} (fresh : ∀ p ∈ ps, apart p.1 k) :
    read (writeAll write s ps) k = read s k :=
  writeAll_frame (f := fun s => read s k) fun s p inside =>
    lawful.other s p.1 k p.2 (fresh p inside)

theorem read_mem (undisturbed : ps.Pairwise fun p p' => apart p'.1 p.1) {p : κ × ν}
    (inside : p ∈ ps) : read (writeAll write s ps) p.1 = p.2 := by
  induction ps generalizing s with
  | nil => cases inside
  | cons q ps ih =>
    obtain ⟨later, rest⟩ := List.pairwise_cons.mp undisturbed
    rcases List.mem_cons.mp inside with rfl | inside
    · rw [writeAll_cons, lawful.read_apart _ later, lawful.same]
    · exact ih (write s q.1 q.2) rest inside

theorem read_cases (separate : ∀ k k', k = k' ∨ apart k k') (k : κ) :
    read (writeAll write s ps) k = read s k ∨
      ∃ p ∈ ps, p.1 = k ∧ read (writeAll write s ps) k = p.2 := by
  induction ps generalizing s with
  | nil => exact .inl rfl
  | cons q ps ih =>
    rcases ih (write s q.1 q.2) with kept | ⟨p, inside, key, value⟩
    · rcases separate q.1 k with here | other
      · exact .inr ⟨q, List.mem_cons_self, here, kept.trans (here ▸ lawful.same s q.1 q.2)⟩
      · exact .inl (kept.trans (lawful.other s q.1 k q.2 other))
    · exact .inr ⟨p, List.mem_cons_of_mem q inside, key, value⟩

end Lawful

theorem lawful_update [DecidableEq κ] :
    Lawful (fun (f : κ → ν) k v => Function.update f k v) (fun f k => f k) (· ≠ ·) where
  same _ _ _ := Function.update_self ..
  other _ _ _ _ other := Function.update_of_ne other.symm _ _

end KeyedStore
