import ArmSimulator.Requests

/-! csapp.c: `rio_writen`, through which everything goes to gdb. The host takes part of what
it is given, or is interrupted; on the wire each byte of the calls still comes once and in its
order, and gdb reads the replies back from it. -/
namespace ArmSimulator
open CString Lexer

/-- What write gives when it is asked to write `n` bytes, and whether `errno` is then EINTR. -/
structure HostWrite (n : Nat) where
  nwritten : Int
  most : nwritten ≤ n
  interrupted : Bool

abbrev HostWrites := Nat → (n : Nat) → HostWrite n

structure Wire where
  sent : List Byte
  count : Nat

inductive Written where
  | done
  | failed
  | unfinished
deriving DecidableEq

section Loop

variable (host : HostWrites)

/-- The loop of `rio_writen`, of which `fuel` rounds are looked at: a call that wrote nothing is
made again if a signal came. -/
def writenLoop : Nat → List Byte → Wire → Written × Wire
  | 0, _, w => (.unfinished, w)
  | _ + 1, [], w => (.done, w)
  | fuel + 1, b :: rest, w =>
    let left := b :: rest
    let answer := host w.count left.length
    if answer.nwritten ≤ 0 then
      if answer.interrupted then writenLoop fuel left { w with count := w.count + 1 }
      else (.failed, { w with count := w.count + 1 })
    else
      let nwritten := answer.nwritten.toNat
      writenLoop fuel (left.drop nwritten) ⟨w.sent ++ left.take nwritten, w.count + 1⟩

/-- `Rio_writen` for each call of the connection; it leaves the program where a write fails. -/
def transmit (fuel : Nat) : List GdbCall → Wire → Written × Wire
  | [], w => (.done, w)
  | .shutdown :: calls, w => transmit fuel calls w
  | .write bytes :: calls, w =>
    match writenLoop host fuel bytes w with
    | (.done, w) => transmit fuel calls w
    | (ended, w) => (ended, w)

end Loop

def GdbCall.bytes : GdbCall → List Byte
  | .write bytes => bytes
  | .shutdown => []

def stream (calls : List GdbCall) : List Byte := calls.flatMap GdbCall.bytes

section Order

variable (host : HostWrites) (fuel : Nat)

/-- What went out is the beginning of `all`, and all of it when the writing is done. -/
structure Sends (all : List Byte) (r : Written × Wire) : Prop where
  order : r.2.sent <+: all
  whole : r.1 = .done → r.2.sent = all

theorem Sends.stopped {all : List Byte} {r : Written × Wire} (order : r.2.sent <+: all)
    (stopped : r.1 ≠ .done) : Sends all r := ⟨order, fun done => absurd done stopped⟩

theorem writenLoop_sends (left : List Byte) (w : Wire) :
    Sends (w.sent ++ left) (writenLoop host fuel left w) := by
  induction fuel generalizing left w with
  | zero => exact .stopped (List.prefix_append _ _) Written.noConfusion
  | succ fuel ih =>
    cases left with
    | nil => exact ⟨List.prefix_append _ _, fun _ => (List.append_nil _).symm⟩
    | cons b rest =>
      simp only [writenLoop]
      split_ifs
      · exact ih (b :: rest) { w with count := w.count + 1 }
      · exact .stopped (List.prefix_append _ _) Written.noConfusion
      · have onward := ih ((b :: rest).drop (host w.count (b :: rest).length).nwritten.toNat)
          ⟨w.sent ++ (b :: rest).take (host w.count (b :: rest).length).nwritten.toNat, w.count + 1⟩
        simp only [List.append_assoc, List.take_append_drop] at onward
        exact onward

theorem transmit_sends (calls : List GdbCall) (w : Wire) :
    Sends (w.sent ++ stream calls) (transmit host fuel calls w) := by
  induction calls generalizing w with
  | nil => exact ⟨List.prefix_append _ _, fun _ => (List.append_nil _).symm⟩
  | cons c calls ih =>
    cases c with
    | shutdown => exact ih w
    | write bytes =>
      have first := writenLoop_sends host fuel bytes w
      have whole : w.sent ++ stream (.write bytes :: calls) = w.sent ++ bytes ++ stream calls :=
        (List.append_assoc _ _ _).symm
      simp only [transmit, whole]
      split
      · rename_i w' loop
        rw [loop] at first
        have sent : w'.sent = w.sent ++ bytes := first.whole rfl
        rw [← sent]
        exact ih w'
      · rename_i ended w' other loop
        rw [loop] at first
        refine .stopped (first.order.trans (List.prefix_append _ _)) ?_
        exact other

end Order

section Progress

/-- Every call takes at least a byte or is interrupted. -/
def Robust (host : HostWrites) : Prop := ∀ k n, 0 < n →
  (host k n).nwritten ≤ 0 → (host k n).interrupted = true

def Takes (host : HostWrites) : Prop := ∀ k, ∃ j, k ≤ j ∧ ∀ n, 0 < n → 0 < (host j n).nwritten

variable {host : HostWrites} {fuel : Nat} {left : List Byte} {w r : Wire}

theorem writenLoop_more (ended : writenLoop host fuel left w = (.done, r)) (more : Nat) :
    writenLoop host (fuel + more) left w = (.done, r) := by
  induction fuel generalizing left w with
  | zero => cases ended
  | succ fuel ih =>
    rw [Nat.add_right_comm]
    cases left with
    | nil => exact ended
    | cons b rest =>
      simp only [writenLoop] at ended ⊢
      split_ifs at ended ⊢
      · exact ih ended
      · cases ended
      · exact ih ended

theorem transmit_more {calls : List GdbCall} (ended : transmit host fuel calls w = (.done, r))
    (more : Nat) : transmit host (fuel + more) calls w = (.done, r) := by
  induction calls generalizing w with
  | nil => exact ended
  | cons c calls ih =>
    cases c with
    | shutdown => exact ih ended
    | write bytes =>
      simp only [transmit] at ended ⊢
      cases loop : writenLoop host fuel bytes w with
      | mk first w' =>
        rw [loop] at ended
        cases first with
        | done =>
          rw [writenLoop_more loop more]
          exact ih ended
        | failed => cases ended
        | unfinished => cases ended

theorem writenLoop_ends (robust : Robust host) (takes : Takes host) (left : List Byte) (w : Wire) :
    ∃ fuel r, writenLoop host fuel left w = (.done, r) := by
  -- once a call takes bytes, fewer are left
  induction size : left.length using Nat.strongRecOn generalizing left w with
  | ind n shorter =>
    cases left with
    | nil => exact ⟨1, w, rfl⟩
    | cons b rest =>
      have positive : 0 < (b :: rest).length := Nat.succ_pos _
      have taken (w : Wire) (some : 0 < (host w.count (b :: rest).length).nwritten) :
          ∃ fuel r, writenLoop host fuel (b :: rest) w = (.done, r) := by
        set nwritten := (host w.count (b :: rest).length).nwritten.toNat with count
        obtain ⟨fuel, r, ended⟩ := shorter ((b :: rest).drop nwritten).length
          (by rw [List.length_drop]; omega) ((b :: rest).drop nwritten)
          ⟨w.sent ++ (b :: rest).take nwritten, w.count + 1⟩ rfl
        refine ⟨fuel + 1, r, ?_⟩
        simp only [writenLoop, Int.not_le.mpr some, if_false]
        exact ended
      obtain ⟨j, later, accepts⟩ := takes w.count
      -- the calls before that one take nothing and are made again
      induction wait : j - w.count generalizing w with
      | zero =>
        obtain rfl : j = w.count := by omega
        exact taken w (accepts _ positive)
      | succ d ih =>
        rcases lt_or_ge 0 (host w.count (b :: rest).length).nwritten with some | nothing
        · exact taken w some
        · obtain ⟨fuel, r, ended⟩ := ih { w with count := w.count + 1 }
            (by simp only; omega) (by simp only; omega)
          refine ⟨fuel + 1, r, ?_⟩
          simp only [writenLoop, nothing, robust _ _ positive nothing, if_true]
          exact ended

theorem transmit_ends (robust : Robust host) (takes : Takes host) (calls : List GdbCall)
    (w : Wire) :
    ∃ fuel r, transmit host fuel calls w = (.done, r) := by
  induction calls generalizing w with
  | nil => exact ⟨0, w, rfl⟩
  | cons c calls ih =>
    cases c with
    | shutdown => exact ih w
    | write bytes =>
      obtain ⟨fuel, w', loop⟩ := writenLoop_ends robust takes bytes w
      obtain ⟨fuel', r, rest⟩ := ih w'
      refine ⟨fuel + fuel', r, ?_⟩
      simp only [transmit, writenLoop_more loop fuel']
      rw [Nat.add_comm]
      exact transmit_more rest fuel

end Progress

/-- Whatever the host does with each call of write, the bytes of the calls of a connection come out
in their order, none twice and none left out; and all of them do on a host that goes on taking
bytes, however few at a time and with whatever interruptions. -/
theorem wire_in_order (host : HostWrites) (calls : List GdbCall) (w : Wire) :
    (∀ fuel, (transmit host fuel calls w).2.sent <+: w.sent ++ stream calls ∧
      ((transmit host fuel calls w).1 = .done →
        (transmit host fuel calls w).2.sent = w.sent ++ stream calls)) ∧
    (Robust host → Takes host → ∃ fuel, (transmit host fuel calls w).1 = .done) := by
  constructor
  · intro fuel
    have sends := transmit_sends host fuel calls w
    exact ⟨sends.order, sends.whole⟩
  · intro robust takes
    obtain ⟨fuel, r, ended⟩ := transmit_ends robust takes calls w
    exact ⟨fuel, by rw [ended]⟩

def slowWritten (k n : Nat) : Int := if k % 2 = 1 ∧ 0 < n then 1 else -1

theorem slowWritten_le (k n : Nat) : slowWritten k n ≤ n := by
  unfold slowWritten
  split <;> omega

def slowHost : HostWrites := fun k n => ⟨slowWritten k n, slowWritten_le k n, true⟩

theorem slowHost_takes : Takes slowHost := by
  intro k
  have odd : (2 * k + 1) % 2 = 1 := by omega
  refine ⟨2 * k + 1, by omega, fun n positive => ?_⟩
  have one : slowWritten (2 * k + 1) n = 1 := if_pos ⟨odd, positive⟩
  exact Int.one_pos.trans_eq one.symm

theorem wire_in_order_slow : ∃ fuel,
    (transmit slowHost fuel [.write (text "+"), .write (text "$OK#9a")] ⟨[], 0⟩).2.sent =
      text "+$OK#9a" := by
  obtain ⟨sends, ends⟩ := wire_in_order slowHost [.write (text "+"), .write (text "$OK#9a")] ⟨[], 0⟩
  obtain ⟨fuel, done⟩ := ends (fun _ _ _ _ => rfl) slowHost_takes
  exact ⟨fuel, (sends fuel).2 done⟩

end ArmSimulator
