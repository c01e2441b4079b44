import Mathlib.Computability.RegularExpressions
import Mathlib.Data.List.Find
import Mathlib.Data.Nat.Find
import Mathlib.Tactic.Common

/-! Scanners made of rules, as lex makes them: the longest non-empty match of a
rule is the next token, the first rule wins a tie, and a character at which no
rule matches is a token of its own. Patterns are Mathlib's regular expressions. -/
namespace Lexer
open RegularExpression

section Patterns

variable {α : Type*}

def oneOf (cs : List α) : RegularExpression α := cs.foldr (fun c p => char c + p) 0

theorem mem_char {c : α} {w : List α} : w ∈ (char c).matches' ↔ w = [c] := Iff.rfl

theorem mem_oneOf {cs : List α} {w : List α} :
    w ∈ (oneOf cs).matches' ↔ ∃ c ∈ cs, w = [c] := by
  induction cs with
  | nil => simp [oneOf]
  | cons c cs ih =>
    have unfolded : oneOf (c :: cs) = char c + oneOf cs := rfl
    rw [unfolded, matches'_add, Language.mem_add, ih, mem_char]
    simp

theorem mem_star_oneOf {cs : List α} {w : List α} :
    w ∈ (star (oneOf cs)).matches' ↔ ∀ c ∈ w, c ∈ cs := by
  rw [matches'_star, Language.mem_kstar]
  constructor
  · rintro ⟨parts, rfl, each⟩ c inside
    obtain ⟨part, member, here⟩ := List.mem_flatten.mp inside
    obtain ⟨d, known, rfl⟩ := mem_oneOf.mp (each part member)
    obtain rfl := List.mem_singleton.mp here
    exact known
  · intro known
    refine ⟨w.map fun c => [c], (List.flatMap_singleton' w).symm, ?_⟩
    intro part member
    obtain ⟨c, inside, rfl⟩ := List.mem_map.mp member
    exact mem_oneOf.mpr ⟨c, known c inside, rfl⟩

end Patterns

structure Rule (α κ : Type*) where
  pattern : RegularExpression α
  action : κ

/-- The action is `none` where no rule matches. -/
structure Token (α κ : Type*) where
  action : Option κ
  text : List α

variable {α κ : Type*} [DecidableEq α]

def matchLength (input : List α) (r : Rule α κ) : Nat :=
  Nat.findGreatest (fun n => 0 < n ∧ r.pattern.rmatch (input.take n) = true) input.length

def longest (rules : List (Rule α κ)) (input : List α) : Nat :=
  rules.foldr (fun r n => max (matchLength input r) n) 0

def chosen (rules : List (Rule α κ)) (input : List α) : Option κ :=
  if longest rules input = 0 then none
  else (rules.find? fun r => matchLength input r == longest rules input).map Rule.action

def tokens (rules : List (Rule α κ)) : List α → List (Token α κ)
  | [] => []
  | c :: rest =>
    ⟨chosen rules (c :: rest), c :: rest.take (longest rules (c :: rest) - 1)⟩ ::
      tokens rules (rest.drop (longest rules (c :: rest) - 1))
termination_by input => input.length
decreasing_by
  rw [List.length_drop, List.length_cons]
  omega

section Matches

variable {rules : List (Rule α κ)} {r : Rule α κ} {u v w : List α}

theorem matchLength_le (input : List α) (r : Rule α κ) : matchLength input r ≤ input.length :=
  Nat.findGreatest_le _

theorem matchLength_whole (found : w ∈ r.pattern.matches') (nonempty : w ≠ []) :
    matchLength w r = w.length := by
  apply le_antisymm (matchLength_le w r)
  apply Nat.le_findGreatest (le_refl _)
  exact ⟨List.length_pos_iff.mpr nonempty, by simpa using found⟩

theorem matchLength_whole_iff (nonempty : w ≠ []) :
    matchLength w r = w.length ↔ w ∈ r.pattern.matches' := by
  constructor
  · intro whole
    have positive : w.length ≠ 0 := by simpa using nonempty
    simpa using (Nat.findGreatest_of_ne_zero whole positive).2
  · exact fun found => matchLength_whole found nonempty

theorem le_longest {input : List α} (member : r ∈ rules) :
    matchLength input r ≤ longest rules input := by
  induction rules with
  | nil => contradiction
  | cons s rules ih =>
    rcases List.mem_cons.mp member with rfl | later
    · exact le_max_left _ _
    · exact (ih later).trans (le_max_right _ _)

theorem longest_le (rules : List (Rule α κ)) (input : List α) :
    longest rules input ≤ input.length := by
  induction rules with
  | nil => exact Nat.zero_le _
  | cons r rules ih => exact max_le (matchLength_le input r) ih

theorem tokens_whole {before after : List (Rule α κ)} (nonempty : w ≠ [])
    (found : w ∈ r.pattern.matches') (first : ∀ s ∈ before, w ∉ s.pattern.matches') :
    tokens (before ++ r :: after) w = [⟨some r.action, w⟩] := by
  have whole := matchLength_whole found nonempty
  have most : longest (before ++ r :: after) w = w.length :=
    le_antisymm (longest_le _ w) (whole ▸ le_longest (by simp))
  have positive : w.length ≠ 0 := by simpa using nonempty
  have selected : (before ++ r :: after).find? (fun s => matchLength w s == w.length) = some r := by
    rw [List.find?_append, List.find?_eq_none.mpr, Option.none_or, List.find?_cons_of_pos]
    · exact beq_iff_eq.mpr whole
    · intro s member same
      exact first s member ((matchLength_whole_iff nonempty).mp (beq_iff_eq.mp same))
  cases w with
  | nil => contradiction
  | cons c rest =>
    have decided : chosen (before ++ r :: after) (c :: rest) = some r.action := by
      rw [chosen, most, if_neg positive, selected, Option.map_some]
    rw [tokens, decided, most, List.length_cons, Nat.add_sub_cancel, List.take_length,
      List.drop_length, tokens]

theorem tokens_matched {kind : κ} {input : List α} (member : ⟨some kind, w⟩ ∈ tokens rules input) :
    ∃ r ∈ rules, r.action = kind ∧ w ∈ r.pattern.matches' := by
  induction input using tokens.induct rules with
  | case1 => simp [tokens] at member
  | case2 c rest ih =>
    rw [tokens] at member
    rcases List.mem_cons.mp member with same | later
    · obtain ⟨action, rfl⟩ := (Token.mk.injEq _ _ _ _).mp same
      rw [chosen] at action
      split at action
      · cases action
      · rename_i positive
        obtain ⟨r, found, acts⟩ := Option.map_eq_some_iff.mp action.symm
        have length : matchLength (c :: rest) r = longest rules (c :: rest) :=
          beq_iff_eq.mp (List.find?_some found :)
        have matched := (Nat.findGreatest_of_ne_zero length positive).2
        obtain ⟨n, size⟩ := Nat.exists_eq_succ_of_ne_zero positive
        rw [rmatch_iff_matches', size, List.take_succ_cons] at matched
        exact ⟨r, List.mem_of_find?_eq_some found, acts, by rwa [size, Nat.succ_sub_one]⟩
    · exact ih later

end Matches

section Cut

/-- No match that starts inside `u` reaches into `w`. -/
def Cut (rules : List (Rule α κ)) (u w : List α) : Prop :=
  ∀ v x, v <:+ u → v ≠ [] → x <+: w → x ≠ [] → ∀ r ∈ rules, v ++ x ∉ r.pattern.matches'

variable {rules : List (Rule α κ)} {r : Rule α κ} {u v w : List α}

theorem Cut.matchLength_append (cut : Cut rules v w) (nonempty : v ≠ []) (member : r ∈ rules) :
    matchLength (v ++ w) r = matchLength v r := by
  obtain ⟨short, matched, longer⟩ := Nat.findGreatest_eq_iff.mp (rfl : matchLength v r = _)
  apply Nat.findGreatest_eq_iff.mpr
  refine ⟨?_, ?_, ?_⟩
  · rw [List.length_append]
    exact short.trans (Nat.le_add_right _ _)
  · intro positive
    rw [List.take_append_of_le_length short]
    exact matched positive
  · rintro n above inside ⟨positive, found⟩
    rw [rmatch_iff_matches', List.take_append] at found
    rcases Nat.lt_or_ge v.length n with past | within
    · rw [List.take_of_length_le past.le] at found
      apply cut v (w.take (n - v.length)) List.suffix_rfl nonempty (List.take_prefix _ _) ?_ r
        member found
      intro empty
      have length := congrArg List.length empty
      rw [List.length_take, List.length_nil] at length
      rw [List.length_append] at inside
      omega
    · rw [Nat.sub_eq_zero_of_le within, List.take_zero, List.append_nil] at found
      exact longer above within ⟨positive, (rmatch_iff_matches' _ _).mpr found⟩

theorem Cut.longest_append (cut : Cut rules v w) (nonempty : v ≠ []) :
    longest rules (v ++ w) = longest rules v := by
  have same : ∀ part ⊆ rules, longest part (v ++ w) = longest part v := by
    intro part inside
    induction part with
    | nil => rfl
    | cons r part ih =>
      obtain ⟨member, rest⟩ := List.cons_subset.mp inside
      change max _ (longest part (v ++ w)) = max _ (longest part v)
      rw [cut.matchLength_append nonempty member, ih rest]
  exact same rules (List.Subset.refl _)

theorem Cut.chosen_append (cut : Cut rules v w) (nonempty : v ≠ []) :
    chosen rules (v ++ w) = chosen rules v := by
  have same : rules.find? (fun r => matchLength (v ++ w) r == longest rules v) =
      rules.find? (fun r => matchLength v r == longest rules v) :=
    List.find?_congr fun r member => by rw [cut.matchLength_append nonempty member]
  rw [chosen, chosen, cut.longest_append nonempty, same]

/-- Scanning resumes afresh at a token boundary. -/
theorem tokens_append (cut : Cut rules u w) :
    tokens rules (u ++ w) = tokens rules u ++ tokens rules w := by
  induction u using tokens.induct rules with
  | case1 => rw [List.nil_append, tokens, List.nil_append]
  | case2 c rest ih =>
    have nonempty : c :: rest ≠ [] := List.cons_ne_nil c rest
    -- with more input behind it the first token is the same
    have size := cut.longest_append nonempty
    have kind := cut.chosen_append nonempty
    have inside := longest_le rules (c :: rest)
    rw [List.length_cons] at inside
    have room : longest rules (c :: rest) - 1 ≤ rest.length := by omega
    have later := ih fun v x tail =>
      cut v x ((tail.trans (List.drop_suffix _ rest)).trans (List.suffix_cons c rest))
    rw [List.cons_append] at size kind
    rw [List.cons_append, tokens, tokens, size, kind, List.take_append_of_le_length room,
      List.drop_append_of_le_length room, later, List.cons_append]

end Cut

end Lexer
