import ArmSimulator.Library.CString
import ArmSimulator.Library.SortedTable
import ArmSimulator.Util

/-! debug.c: the names of the files whose messages are shown, a table sorted by
strcmp. What a shown message prints is left out. -/
namespace ArmSimulator
open CString SortedTable

def maxFilesNumber : Nat := 64

inductive TableFault where
  | outOfBounds
  | nullPointer
deriving DecidableEq, Repr

/-- The two static variables; a null pointer is `none`. -/
structure DebugTable where
  debuggedFiles : Nat → Option Str
  nbDebuggedFiles : Nat

def noDebuggedFiles : DebugTable := ⟨fun _ => none, 0⟩

section Array

variable (files : Nat → Option Str)

/-- `debugged_files[i]`, which has `maxFilesNumber` places. -/
def readFile (i : Int) : Except TableFault (Option Str) :=
  if 0 ≤ i ∧ i < maxFilesNumber then .ok (files i.toNat) else .error .outOfBounds

def writeFile (i : Int) (name : Option Str) : Except TableFault (Nat → Option Str) :=
  if 0 ≤ i ∧ i < maxFilesNumber then .ok (Function.update files i.toNat name)
  else .error .outOfBounds

/-- `strcmp(debugged_files[i], name)`. -/
def compareFile (i : Int) (name : Str) : Except TableFault Int := do
  match ← readFile files i with
  | some file => .ok (strcmp file.chars name.chars)
  | none => .error .nullPointer

def placeLoop (nb : Nat) (name : Str) (i : Nat) : Except TableFault Nat :=
  if _ : i < nb ∧ i < maxFilesNumber then do
    let result ← compareFile files i name
    if result < 0 then placeLoop nb name (i + 1) else .ok i
  else .ok i
termination_by nb - i

/-- `for (j=nb_debugged_files; j>i; j--) debugged_files[j] = debugged_files[j-1]`. -/
def shiftLoop (i : Nat) : Nat → (Nat → Option Str) → Except TableFault (Nat → Option Str)
  | 0, files => .ok files
  | j + 1, files =>
    if i < j + 1 then do
      let file ← readFile files j
      let files ← writeFile files (j + 1) file
      shiftLoop i j files
    else .ok files

/-- The loop of `__is_debugged`: 1 in the middle of it, or the window it ends with. -/
def searchLoop (name : Str) (from_ to_ : Int) : Except TableFault (Option (Int × Int)) :=
  if _ : from_ < to_ then do
    let middle := (from_ + to_) / 2
    let result ← compareFile files middle name
    if result < 0 then searchLoop name (middle + 1) to_
    else if result > 0 then searchLoop name from_ (middle - 1)
    else .ok none
  else .ok (some (from_, to_))
termination_by (to_ - from_).toNat

end Array

def addDebugTo (t : DebugTable) (name : Str) : Except TableFault DebugTable := do
  let i ← placeLoop t.debuggedFiles t.nbDebuggedFiles name 0
  if maxFilesNumber ≤ i then .ok t
  else do
    let files ← shiftLoop i t.nbDebuggedFiles t.debuggedFiles
    let files ← writeFile files i (some name)
    .ok ⟨files, t.nbDebuggedFiles + 1⟩

def isDebugged (t : DebugTable) (name : Str) : Except TableFault Int := do
  match ← searchLoop t.debuggedFiles name 0 (t.nbDebuggedFiles - 1) with
  | none => .ok 1
  | some (from_, to_) =>
    if from_ = to_ then do
      let result ← compareFile t.debuggedFiles from_ name
      if result = 0 then .ok 1 else .ok 0
    else .ok 0

section Loops

variable {files : Nat → Option Str} {l : List Str} {name : Str}

def Listed (files : Nat → Option Str) (l : List Str) : Prop :=
  ∀ (i : Nat) (file : Str), l[i]? = some file → files i = some file

theorem readFile_inside (files : Nat → Option Str) {i : Nat} (inside : i < maxFilesNumber) :
    readFile files i = .ok (files i) := by
  rw [readFile, if_pos (by omega), Int.toNat_natCast]

theorem writeFile_inside (files : Nat → Option Str) {i : Nat} (inside : i < maxFilesNumber)
    (file : Option Str) :
    writeFile files i file = .ok (Function.update files i file) := by
  rw [writeFile, if_pos (by omega), Int.toNat_natCast]

theorem compareFile_listed (listed : Listed files l) (room : l.length ≤ maxFilesNumber) {i : Nat}
    {file : Str} (there : l[i]? = some file) (name : Str) :
    compareFile files i name = .ok (strcmp file.chars name.chars) := by
  obtain ⟨inside, -⟩ := List.getElem?_eq_some_iff.mp there
  simp only [compareFile, readFile_inside files (inside.trans_le room), listed i file there,
    bind, Except.bind]

theorem placeLoop_place (listed : Listed files l) (room : l.length ≤ maxFilesNumber) {i : Nat}
    (inside : i ≤ l.length) (before : ∀ j < i, ∀ file, l[j]? = some file → file < name) :
    ∃ n, placeLoop files l.length name i = .ok n ∧ IsPlace l name n := by
  induction left : l.length - i generalizing i with
  | zero =>
    obtain rfl : i = l.length := by omega
    refine ⟨l.length, ?_, le_rfl, before, by simp⟩
    rw [placeLoop, dif_neg (by omega)]
  | succ left ih =>
    have next : i < l.length := by omega
    have there : l[i]? = some l[i] := List.getElem?_eq_getElem next
    have compared := compareFile_listed listed room there name
    rw [placeLoop, dif_pos ⟨next, by omega⟩, compared]
    simp only [bind, Except.bind, strcmp_neg_iff]
    by_cases below : l[i] < name
    · rw [if_pos below]
      apply ih next _ (by omega)
      intro j less file found
      rcases Nat.lt_succ_iff_lt_or_eq.mp less with earlier | rfl
      · exact before j earlier file found
      · rw [there] at found
        exact Option.some.inj found ▸ below
    · refine ⟨i, if_neg below, inside, before, ?_⟩
      intro file found
      rw [there] at found
      exact Option.some.inj found ▸ not_lt.mp below

/-- The array after the entries from `i` to `j - 1` moved up by one. -/
def shifted (files : Nat → Option Str) (i j k : Nat) : Option Str :=
  if i < k ∧ k ≤ j then files (k - 1) else files k

theorem shiftLoop_inside (files : Nat → Option Str) (i : Nat) {j : Nat}
    (room : j < maxFilesNumber) :
    shiftLoop i j files = .ok (shifted files i j) := by
  induction j generalizing files with
  | zero =>
    have same : shifted files i 0 = files := funext fun k => if_neg (by omega)
    rw [same, shiftLoop]
  | succ j ih =>
    by_cases more : i < j + 1
    · rw [shiftLoop, if_pos more, readFile_inside files (by omega)]
      have written := writeFile_inside files room (files j)
      simp only [bind, Except.bind, Nat.cast_add, Nat.cast_one] at written ⊢
      rw [written]
      simp only [ih (Function.update files (j + 1) (files j)) (by omega)]
      congr 1
      funext k
      unfold shifted
      by_cases last : k = j + 1
      · subst last
        rw [if_neg (by omega), if_pos ⟨more, le_rfl⟩, Function.update_self, Nat.add_sub_cancel]
      · by_cases moved : i < k ∧ k ≤ j
        · rw [if_pos moved, if_pos ⟨moved.1, by omega⟩, Function.update_of_ne (by omega)]
        · rw [if_neg moved, if_neg (by omega), Function.update_of_ne last]
    · have same : shifted files i (j + 1) = files := funext fun k => if_neg (by omega)
      rw [same, shiftLoop, if_neg more]

theorem Listed.insert (listed : Listed files l) {n : Nat} (inside : n ≤ l.length) :
    Listed (Function.update (shifted files n l.length) n (some name)) (l.insertIdx n name) := by
  intro i file found
  rw [List.getElem?_insertIdx] at found
  by_cases low : i < n
  · rw [if_pos low] at found
    rw [Function.update_of_ne (by omega), shifted, if_neg (by omega), listed i file found]
  · rw [if_neg low] at found
    by_cases here : i = n
    · subst here
      simpa [inside] using found
    · rw [if_neg here] at found
      have bound := (List.getElem?_eq_some_iff.mp found).1
      rw [Function.update_of_ne here, shifted, if_pos (by omega), listed (i - 1) file found]

end Loops

section Calls

structure HoldsNames (t : DebugTable) (l : List Str) : Prop where
  count : t.nbDebuggedFiles = l.length
  room : l.length ≤ maxFilesNumber
  sorted : l.SortedLE
  listed : Listed t.debuggedFiles l

theorem holds_none : HoldsNames noDebuggedFiles [] :=
  ⟨rfl, Nat.zero_le _, List.Pairwise.nil.sortedLE, by simp [Listed]⟩

variable {t : DebugTable} {l : List Str}

theorem HoldsNames.place (holds : HoldsNames t l) (name : Str) :
    ∃ n, placeLoop t.debuggedFiles t.nbDebuggedFiles name 0 = .ok n ∧ IsPlace l name n := by
  rw [holds.count]
  exact placeLoop_place holds.listed holds.room (Nat.zero_le _) (by simp)

theorem addDebugTo_free (holds : HoldsNames t l) (free : l.length < maxFilesNumber) (name : Str) :
    ∃ t', addDebugTo t name = .ok t' ∧ HoldsNames t' (l.orderedInsert (· ≤ ·) name) := by
  obtain ⟨n, placed, place⟩ := holds.place name
  have inside := place.inside
  have moved := shiftLoop_inside t.debuggedFiles n free
  have stored : writeFile (shifted t.debuggedFiles n l.length) n (some name) = _ :=
    writeFile_inside _ (by omega) (some name)
  refine ⟨⟨Function.update (shifted t.debuggedFiles n l.length) n (some name), l.length + 1⟩,
    ?_, ?_⟩
  · rw [holds.count] at placed
    simp only [addDebugTo, holds.count, placed, moved, stored, bind, Except.bind]
    rw [if_neg (by omega)]
  · rw [← place.insertIdx]
    have length : (l.insertIdx n name).length = l.length + 1 :=
      List.length_insertIdx_of_le_length place.inside name
    exact ⟨length.symm, by rw [length]; exact free, place.sorted holds.sorted,
      holds.listed.insert place.inside⟩

theorem addDebugTo_full (holds : HoldsNames t l) (full : l.length = maxFilesNumber) (name : Str) :
    addDebugTo t name = if ∀ file ∈ l, file < name then .ok t else .error .outOfBounds := by
  obtain ⟨n, placed, place⟩ := holds.place name
  rw [holds.count] at placed
  by_cases above : ∀ file ∈ l, file < name
  · have last : maxFilesNumber ≤ n := (full.symm.trans (place.at_end_iff.mpr above).symm).le
    simp only [addDebugTo, holds.count, placed, bind, Except.bind, if_pos last, if_pos above]
  · have before : n < l.length :=
      Nat.lt_of_le_of_ne place.inside fun last => above (place.at_end_iff.mp last)
    have read := readFile_inside t.debuggedFiles (i := 63) (by decide)
    have behind : writeFile t.debuggedFiles (63 + 1) (t.debuggedFiles 63) = .error .outOfBounds :=
      if_neg (by decide)
    have size : maxFilesNumber = 63 + 1 := rfl
    simp only [addDebugTo, holds.count, placed, bind, Except.bind, if_neg above]
    rw [if_neg (by omega), full, size, shiftLoop, if_pos (by omega), read]
    simp only [bind, Except.bind, Nat.cast_ofNat]
    rw [behind]

theorem searchLoop_ends (holds : HoldsNames t l) (name : Str) {from_ to_ : Int} (start : 0 ≤ from_)
    (last : to_ < l.length) (only : OnlyWithin l name from_ to_) :
    (searchLoop t.debuggedFiles name from_ to_ = .ok none ∧ name ∈ l) ∨
      ∃ low high, searchLoop t.debuggedFiles name from_ to_ = .ok (some (low, high)) ∧
        OnlyWithin l name low high ∧ high ≤ low ∧ 0 ≤ low ∧ high < l.length := by
  -- on the width of the window, outside of which the name cannot be
  induction size : (to_ - from_).toNat using Nat.strongRecOn generalizing from_ to_ with
  | ind size ih =>
    by_cases wide : from_ < to_
    · obtain ⟨m, middle⟩ : ∃ m : Nat, (from_ + to_) / 2 = m :=
        ⟨((from_ + to_) / 2).toNat, by omega⟩
      have inside : m < l.length := by omega
      have there : l[m]? = some l[m] := List.getElem?_eq_getElem inside
      have compared := compareFile_listed holds.listed holds.room there name
      rw [searchLoop, dif_pos wide]
      simp only [middle, compared, bind, Except.bind, strcmp_neg_iff, gt_iff_lt, strcmp_pos_iff]
      rcases lt_trichotomy l[m] name with below | same | above
      · rw [if_pos below]
        exact ih _ (by omega) (by omega) last (only.above holds.sorted there below) rfl
      · left
        rw [if_neg same.not_lt, if_neg same.not_gt]
        exact ⟨rfl, same ▸ List.getElem_mem inside⟩
      · rw [if_neg above.not_gt, if_pos above]
        exact ih _ (by omega) start (by omega) (only.below holds.sorted there above) rfl
    · right
      exact ⟨from_, to_, by rw [searchLoop, dif_neg wide], only, by omega, start, last⟩

theorem isDebugged_holds (holds : HoldsNames t l) (name : Str) :
    isDebugged t name = .ok (if name ∈ l then 1 else 0) := by
  have search := searchLoop_ends holds name le_rfl (by omega) (onlyWithin_all l name)
  rw [← holds.count] at search
  rcases search with ⟨found, member⟩ | ⟨low, high, ended, only, narrow, start, last⟩
  · simp only [isDebugged, found, bind, Except.bind, if_pos member]
  · simp only [isDebugged, ended, bind, Except.bind]
    by_cases single : low = high
    · subst single
      obtain ⟨i, rfl⟩ := Int.eq_ofNat_of_zero_le start
      have inside : i < l.length := by rw [← holds.count]; omega
      have there : l[i]? = some l[i] := List.getElem?_eq_getElem inside
      have compared := compareFile_listed holds.listed holds.room there name
      have decided : name ∈ l ↔ l[i] = name := by
        rw [only.mem_iff narrow, Int.toNat_natCast, there, Option.some.injEq]
        exact ⟨fun found => found.2.2, fun same => ⟨rfl, start, same⟩⟩
      rw [if_pos rfl, compared]
      simp only [strcmp_zero_iff, decided]
      split <;> rfl
    · have absent : name ∉ l := fun member => single ((only.mem_iff narrow).mp member).1
      rw [if_neg single, if_neg absent]

end Calls

section Sequences

def table (names : List Str) (l : List Str) : List Str :=
  names.foldl (fun l name => l.orderedInsert (· ≤ ·) name) l

theorem table_perm (names l : List Str) : (table names l).Perm (names ++ l) := by
  induction names generalizing l with
  | nil => exact List.Perm.refl l
  | cons name names ih =>
    have inserted := List.perm_orderedInsert (· ≤ ·) name l
    exact (ih _).trans ((inserted.append_left names).trans List.perm_middle)

variable {t : DebugTable} {l names : List Str}

theorem addAll_free (holds : HoldsNames t l) (free : names.length + l.length ≤ maxFilesNumber) :
    ∃ t', names.foldlM addDebugTo t = .ok t' ∧ HoldsNames t' (table names l) := by
  induction names generalizing t l with
  | nil => exact ⟨t, rfl, holds⟩
  | cons name names ih =>
    rw [List.length_cons] at free
    obtain ⟨next, added, holds⟩ := addDebugTo_free holds (by omega) name
    obtain ⟨last, rest, holds⟩ := ih holds (by rw [List.orderedInsert_length]; omega)
    refine ⟨last, ?_, holds⟩
    simp only [List.foldlM_cons, added, bind, Except.bind, rest]

theorem addAll_full (holds : HoldsNames t l) (full : l.length = maxFilesNumber) (names : List Str) :
    names.foldlM addDebugTo t =
      if ∀ name ∈ names, ∀ file ∈ l, file < name then .ok t else .error .outOfBounds := by
  induction names with
  | nil => exact (if_pos (by simp)).symm
  | cons name names ih =>
    rw [List.foldlM_cons, addDebugTo_full holds full]
    by_cases above : ∀ file ∈ l, file < name
    · simp only [if_pos above, bind, Except.bind, ih, List.forall_mem_cons]
      congr 1
      exact propext (and_iff_right above).symm
    · rw [if_neg above, if_neg fun all => above (all name List.mem_cons_self)]
      rfl

theorem addAll_short {names : List Str} (short : names.length ≤ maxFilesNumber) :
    ∃ t, names.foldlM addDebugTo noDebuggedFiles = .ok t ∧ HoldsNames t (table names []) :=
  addAll_free holds_none short

theorem mem_table {names : List Str} {name : Str} : name ∈ table names [] ↔ name ∈ names := by
  rw [(table_perm names []).mem_iff, List.append_nil]

theorem length_table (names : List Str) : (table names []).length = names.length := by
  rw [(table_perm names []).length_eq, List.append_nil]

theorem addAll_long {names : List Str} (long : maxFilesNumber ≤ names.length) :
    ∃ t, HoldsNames t (table (names.take maxFilesNumber) []) ∧
      names.foldlM addDebugTo noDebuggedFiles =
        if ∀ name ∈ names.drop maxFilesNumber, ∀ file ∈ names.take maxFilesNumber, file < name
        then .ok t else .error .outOfBounds := by
  have full : (names.take maxFilesNumber).length = maxFilesNumber :=
    List.length_take_of_le long
  obtain ⟨t, filled, holds⟩ := addAll_short full.le
  have rest := addAll_full holds ((length_table _).trans full) (names.drop maxFilesNumber)
  refine ⟨t, holds, ?_⟩
  calc names.foldlM addDebugTo noDebuggedFiles
      = (names.take maxFilesNumber ++ names.drop maxFilesNumber).foldlM addDebugTo
          noDebuggedFiles := by rw [List.take_append_drop]
    _ = (names.drop maxFilesNumber).foldlM addDebugTo t := by
      rw [List.foldlM_append, filled]
      rfl
    _ = _ := by simp only [rest, mem_table]

def SortedFiles (t : DebugTable) : Prop :=
  ∀ i j, i < j → j < t.nbDebuggedFiles → ∃ file other, t.debuggedFiles i = some file ∧
    t.debuggedFiles j = some other ∧ strcmp file.chars other.chars ≤ 0

theorem HoldsNames.sortedFiles (holds : HoldsNames t l) : SortedFiles t := by
  intro i j order inside
  rw [holds.count] at inside
  have first : i < l.length := order.trans inside
  have ordered : l[i] ≤ l[j] := holds.sorted.getElem_le_getElem_of_le order.le
  refine ⟨l[i], l[j], holds.listed i _ (List.getElem?_eq_getElem first),
    holds.listed j _ (List.getElem?_eq_getElem inside), ?_⟩
  exact not_lt.mp (mt (strcmp_pos_iff _ _).mp ordered.not_gt)

end Sequences

theorem debug_file_set (names : List Str) (short : names.length ≤ maxFilesNumber) (query : Str) :
    ∃ t, names.foldlM addDebugTo noDebuggedFiles = .ok t ∧ SortedFiles t ∧
      ∃ result, isDebugged t query = .ok result ∧ (result = 1 ∨ result = 0) ∧
        (result = 1 ↔ query ∈ names) := by
  obtain ⟨t, added, holds⟩ := addAll_short short
  refine ⟨t, added, holds.sortedFiles, _, isDebugged_holds holds query, ?_, ?_⟩
  · split <;> simp
  · simp only [mem_table]
    split <;> simp_all

theorem debug_file_set_four : ∃ t,
    [(⟨text "util.c", by decide⟩ : Str), ⟨text "memory.c", by decide⟩, ⟨text "util.c", by decide⟩,
      ⟨text "arm_core.c", by decide⟩].foldlM addDebugTo noDebuggedFiles = .ok t ∧ SortedFiles t ∧
    ∃ result, isDebugged t ⟨text "memory.c", by decide⟩ = .ok result ∧ result = 1 := by
  obtain ⟨t, added, sorted, result, searched, -, found⟩ := debug_file_set
    [⟨text "util.c", by decide⟩, ⟨text "memory.c", by decide⟩, ⟨text "util.c", by decide⟩,
      ⟨text "arm_core.c", by decide⟩] (by decide) ⟨text "memory.c", by decide⟩
  exact ⟨t, added, sorted, result, searched, found.mpr (by simp)⟩

/-- No call of a sequence, and no search after it, reaches outside the array. -/
def IndicesInside (names : List Str) : Prop :=
  ∀ past, past <+: names → past.foldlM addDebugTo noDebuggedFiles ≠ .error .outOfBounds ∧
    ∀ t, past.foldlM addDebugTo noDebuggedFiles = .ok t → t.nbDebuggedFiles ≤ maxFilesNumber ∧
      ∀ query, isDebugged t query ≠ .error .outOfBounds

theorem HoldsNames.inside {x : Except TableFault DebugTable} {t : DebugTable} {l : List Str}
    (holds : HoldsNames t l) (result : x = .ok t) : x ≠ .error .outOfBounds ∧
      ∀ t, x = .ok t → t.nbDebuggedFiles ≤ maxFilesNumber ∧
        ∀ query, isDebugged t query ≠ .error .outOfBounds := by
  refine ⟨by simp [result], ?_⟩
  intro t' same
  obtain rfl : t = t' := Except.ok.inj (result.symm.trans same)
  refine ⟨holds.count ▸ holds.room, fun query => ?_⟩
  rw [isDebugged_holds holds query]
  simp

theorem IndicesInside.above {names : List Str} (inside : IndicesInside names) :
    ∀ name ∈ names.drop maxFilesNumber, ∀ file ∈ names.take maxFilesNumber, file < name := by
  rcases Nat.lt_or_ge names.length maxFilesNumber with short | long
  · simp [List.drop_of_length_le short.le]
  · obtain ⟨t, -, run⟩ := addAll_long long
    by_contra below
    rw [if_neg below] at run
    exact (inside names (List.prefix_refl names)).1 run

theorem table_bounds_iff (names : List Str) : IndicesInside names ↔
    ∀ name ∈ names.drop maxFilesNumber, ∀ file ∈ names.take maxFilesNumber,
      strcmp file.chars name.chars < 0 := by
  simp only [strcmp_neg_iff]
  refine ⟨IndicesInside.above, ?_⟩
  rintro above past ⟨rest, rfl⟩
  rcases Nat.lt_or_ge past.length maxFilesNumber with short | long
  · obtain ⟨t, added, holds⟩ := addAll_short short.le
    exact holds.inside added
  · rw [List.take_append_of_le_length long, List.drop_append_of_le_length long] at above
    obtain ⟨t, holds, run⟩ := addAll_long long
    rw [if_pos fun name later => above name (List.mem_append_left rest later)] at run
    exact holds.inside run

theorem repeated_name_overruns :
    ¬IndicesInside (List.replicate 65 ⟨text "util.c", by decide⟩) := by
  intro inside
  have above := inside.above
  rw [List.drop_replicate, List.take_replicate] at above
  exact lt_irrefl _ (above _ (List.mem_replicate.mpr ⟨by decide, rfl⟩) _
    (List.mem_replicate.mpr ⟨by decide, rfl⟩))

end ArmSimulator
