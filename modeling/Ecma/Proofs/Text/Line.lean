import Ecma.Proofs.Grammar.Matches
import Ecma.Text.Blank
import Mathlib.Data.Nat.Find
import Mathlib.Data.Prod.Lex

set_option autoImplicit false

/-!
Lines and columns. The line of a place is one more than the number of lines that have ended there, and its
column one more than the number of characters since the last of these ends; so places are in the order of
their lines, and in a line in the order of their columns.
-/

namespace Ecma.Text

open Ecma.Grammar (bytes bytes_cons bytes_append)

/-! Where lines end. -/

/-- A line ends between two parts of a text. A line terminator is there, and it is no CR whose LF is still to come. -/
def endsLine (before after : List Char) : Bool :=
  match before.getLast? with
  | some '\r' => after.head? != some '\n'
  | some c => isLineTerminator c
  | none => false

/-- A line ends after so many characters. -/
def endsAt (cs : List Char) (n : Nat) : Bool :=
  endsLine (cs.take n) (cs.drop n)

/-- The number of lines that have ended after so many characters. -/
def linesEnded (cs : List Char) (n : Nat) : Nat :=
  (List.range (n + 1)).countP (endsAt cs)

/-- The number of characters before the line of a place. -/
def lineStart (cs : List Char) (n : Nat) : Nat :=
  Nat.findGreatest (fun i => endsAt cs i = true) n

section

variable (c : Char) (cs : List Char)

theorem ends_at_zero : endsAt cs 0 = false :=
  rfl

theorem ends_at_later (n : Nat) (within : n < cs.length) : endsAt (c :: cs) (n + 2) = endsAt cs (n + 1) := by
  cases cs with
  | nil => cases within
  | cons d rest =>
    rw [endsAt, endsAt, endsLine, endsLine, List.take_succ_cons, List.drop_succ_cons, List.take_succ_cons,
      List.getLast?_cons_cons]

theorem ends_at_first : endsAt (c :: cs) 1 = endsLine [c] cs :=
  rfl

/-- The places at which lines end, as numbers of characters. -/
def lineEnds : List Nat :=
  (List.range (cs.length + 1)).filter (endsAt cs)

theorem line_ends_cons :
    lineEnds (c :: cs) = (if endsLine [c] cs then [1] else []) ++ (lineEnds cs).map (· + 1) := by
  have later : (List.range cs.length).filter ((endsAt (c :: cs) ∘ Nat.succ) ∘ Nat.succ) =
      (List.range cs.length).filter (endsAt cs ∘ Nat.succ) :=
    List.filter_congr fun n member => ends_at_later c cs n (List.mem_range.mp member)
  have first : (endsAt (c :: cs) ∘ Nat.succ) 0 = endsLine [c] cs :=
    ends_at_first c cs
  rw [lineEnds, lineEnds, List.length_cons, List.range_succ_eq_map, List.filter_cons, ends_at_zero,
    if_neg Bool.false_ne_true, List.range_succ_eq_map, List.filter_map, List.filter_cons, first, List.filter_map,
    later, List.filter_cons, ends_at_zero, if_neg Bool.false_ne_true, List.filter_map]
  split <;> simp

theorem line_starts_cons (offset : Nat) :
    lineStartsFrom (c :: cs) offset =
      (if endsLine [c] cs then [offset + c.utf8Size] else []) ++ lineStartsFrom cs (offset + c.utf8Size) := by
  by_cases pair : c = '\r' ∧ cs.head? = some '\n'
  · obtain ⟨rfl, head⟩ := pair
    obtain ⟨rest, rfl⟩ := List.head?_eq_some_iff.mp head
    rfl
  · have single : lineStartsFrom (c :: cs) offset =
        if c = '\r' ∨ c = '\n' ∨ c = '\u2028' ∨ c = '\u2029' then
          (offset + c.utf8Size) :: lineStartsFrom cs (offset + c.utf8Size)
        else lineStartsFrom cs (offset + c.utf8Size) := by
      rw [lineStartsFrom]
      rintro rest rfl rfl
      exact pair ⟨rfl, rfl⟩
    have ends : endsLine [c] cs = true ↔ c = '\r' ∨ c = '\n' ∨ c = '\u2028' ∨ c = '\u2029' := by
      by_cases carriage : c = '\r'
      · subst carriage
        have other : cs.head? ≠ some '\n' := fun head => pair ⟨rfl, head⟩
        simp [endsLine, other]
      · have terminator : endsLine [c] cs = isLineTerminator c := by
          rw [endsLine, List.getLast?_singleton]
          split
          · next same => exact absurd (Option.some.inj same) carriage
          · next same => rw [Option.some.inj same]
          · next none => cases none
        rw [terminator, isLineTerminator]
        simp only [Bool.or_eq_true, beq_iff_eq]
        tauto
    rw [single]
    by_cases terminator : endsLine [c] cs = true
    · rw [if_pos (ends.mp terminator), if_pos terminator, List.singleton_append]
    · rw [if_neg (terminator ∘ ends.mpr), if_neg terminator, List.nil_append]

/-- The offsets at which lines begin are those at which lines have ended. -/
theorem line_starts_from (offset : Nat) :
    lineStartsFrom cs offset = (lineEnds cs).map fun n => offset + bytes (cs.take n) := by
  induction cs generalizing offset with
  | nil => rfl
  | cons c cs hyp =>
    have shifted (n : Nat) : offset + bytes ((c :: cs).take (n + 1)) = offset + c.utf8Size + bytes (cs.take n) := by
      rw [List.take_succ_cons, bytes_cons, Nat.add_assoc]
    rw [line_starts_cons, line_ends_cons, List.map_append, List.map_map, hyp]
    congr 1
    · split
      · rfl
      · rfl
    · exact List.map_congr_left fun n _ => (shifted n).symm

end

/-! Offsets of places. -/

theorem bytes_of (s : String) : s.utf8ByteSize = bytes s.toList := by
  have size (cs : List Char) : (String.ofList cs).utf8ByteSize = bytes cs := by
    induction cs with
    | nil => rfl
    | cons c cs hyp => rw [String.ofList_cons, String.utf8ByteSize_append, String.utf8ByteSize_singleton, hyp, bytes_cons]
  rw [← size, String.ofList_toList]

section

variable (cs : List Char)

theorem bytes_take_less (m n : Nat) (less : m < n) (within : n ≤ cs.length) : bytes (cs.take m) < bytes (cs.take n) := by
  induction cs generalizing m n with
  | nil => exact absurd within (by simp only [List.length_nil]; omega)
  | cons c cs hyp =>
    obtain ⟨n, rfl⟩ := Nat.exists_eq_add_one_of_ne_zero (Nat.ne_zero_of_lt less)
    have positive := c.utf8Size_pos
    cases m with
    | zero =>
      rw [List.take_zero, List.take_succ_cons, bytes_cons]
      exact Nat.lt_of_lt_of_le positive (Nat.le_add_right _ _)
    | succ m =>
      rw [List.take_succ_cons, List.take_succ_cons, bytes_cons, bytes_cons]
      exact Nat.add_lt_add_left (hyp m n (by omega) (by simpa using within)) _

theorem bytes_take_iff (m n : Nat) (left : m ≤ cs.length) (right : n ≤ cs.length) :
    bytes (cs.take m) ≤ bytes (cs.take n) ↔ m ≤ n := by
  constructor
  · intro most
    by_contra above
    have less := bytes_take_less cs n m (by omega) left
    omega
  · intro most
    rcases Nat.eq_or_lt_of_le most with rfl | less
    · exact Nat.le_refl _
    · exact Nat.le_of_lt (bytes_take_less cs m n less right)

theorem drop_bytes (rest : List Char) : dropBytes (cs ++ rest) (bytes cs) = some rest := by
  induction cs with
  | nil => cases rest <;> rfl
  | cons c cs hyp =>
    have nonzero : c.utf8Size + bytes cs ≠ 0 := Nat.ne_of_gt (Nat.add_pos_left c.utf8Size_pos _)
    rw [List.cons_append, bytes_cons, dropBytes, if_pos (Nat.le_add_right _ _), Nat.add_sub_cancel_left, hyp]
    exact nonzero

theorem chars_in_bytes (rest : List Char) : charsInBytes (cs ++ rest) (bytes cs) = some cs.length := by
  induction cs with
  | nil => cases rest <;> rfl
  | cons c cs hyp =>
    have nonzero : c.utf8Size + bytes cs ≠ 0 := Nat.ne_of_gt (Nat.add_pos_left c.utf8Size_pos _)
    rw [List.cons_append, bytes_cons, charsInBytes, if_pos (Nat.le_add_right _ _), Nat.add_sub_cancel_left, hyp]
    · rfl
    · exact nonzero

end

/-! Looking a number up. -/

section

variable (xs : Array Nat) (x : Nat) (ascending : xs.toList.Pairwise (· < ·))
include ascending

theorem ascending_less (i j : Nat) (less : i < j) (within : j < xs.size) : xs[i] < xs[j] :=
  List.pairwise_iff_getElem.mp ascending i j (Nat.lt_trans less within) within less

/-- What is left in the end is at or below the number, unless it is the first, and what follows is above it. -/
theorem narrow_last (base size : Nat) (nonempty : 0 < size) (fits : base + size ≤ xs.size)
    (above : ∀ j (within : j < xs.size), base + size ≤ j → x < xs[j]) (place : Fin xs.size)
    (is : narrow xs x base size nonempty fits = place) :
    base ≤ place.val ∧ (place.val = base ∨ xs[place] ≤ x) ∧ ∀ j (within : j < xs.size), place.val < j → x < xs[j] := by
  fun_induction narrow xs x base size nonempty fits with
  | case1 base nonempty fits =>
    rw [narrow, dif_pos rfl] at is
    subst is
    exact ⟨Nat.le_refl _, .inl rfl, fun j within later => above j within later⟩
  | case2 base size nonempty fits one less hyp =>
    rw [narrow, dif_neg one, if_pos less] at is
    refine hyp (fun j within later => ?_) is
    rcases Nat.eq_or_lt_of_le (show base + size / 2 ≤ j by omega) with rfl | past
    · exact less
    · exact Nat.lt_trans less (ascending_less xs ascending _ j past within)
  | case3 base size nonempty fits one less hyp =>
    rw [narrow, dif_neg one, if_neg less] at is
    obtain ⟨least, found, later⟩ := hyp (fun j within later => above j within (by omega)) is
    refine ⟨by omega, .inr ?_, later⟩
    rcases found with same | most
    · simp only [Fin.getElem_fin, same]
      omega
    · exact most

/-- A number that is not below the first is found, or it is missing right after the last that is below it. -/
theorem search_place (first : ∃ nonempty : 0 < xs.size, xs[0] ≤ x) :
    ∃ place : Fin xs.size, (search xs x = .here place ∨ search xs x = .missing (place + 1)) ∧ xs[place] ≤ x ∧
      ∀ j (within : j < xs.size), place.val < j → x < xs[j] := by
  obtain ⟨nonempty, first⟩ := first
  obtain ⟨_, found, later⟩ := narrow_last xs x ascending 0 xs.size nonempty (by omega) (fun j within past => by omega) _ rfl
  have most : xs[narrow xs x 0 xs.size nonempty (by omega)] ≤ x := by
    rcases found with same | most
    · simpa only [Fin.getElem_fin, same] using first
    · exact most
  refine ⟨_, ?_, most, later⟩
  rw [search, dif_pos nonempty]
  dsimp only
  split
  · exact .inl rfl
  · next other => exact .inr (if_pos (by omega))

end

/-! The line and the column of a place. -/

section

variable (text : String)

theorem line_starts_list :
    (lineStarts text).toList = 0 :: (lineEnds text.toList).map fun n => bytes (text.toList.take n) := by
  rw [lineStarts, line_starts_from]
  simp only [Nat.zero_add]

theorem line_ends_iff (cs : List Char) (n : Nat) : n ∈ lineEnds cs ↔ n ≤ cs.length ∧ endsAt cs n = true := by
  rw [lineEnds, List.mem_filter, List.mem_range, Nat.lt_add_one_iff]

theorem line_ends_positive (cs : List Char) (n : Nat) (ends : endsAt cs n = true) : 0 < n := by
  rcases Nat.eq_zero_or_pos n with rfl | positive
  · cases ends
  · exact positive

theorem line_starts_ascending : (lineStarts text).toList.Pairwise (· < ·) := by
  have ends : (lineEnds text.toList).Pairwise (· < ·) := List.Pairwise.filter _ List.pairwise_lt_range
  rw [line_starts_list, List.pairwise_cons, List.pairwise_map]
  constructor
  · intro start member
    obtain ⟨n, there, rfl⟩ := List.mem_map.mp member
    obtain ⟨within, ends⟩ := (line_ends_iff _ n).mp there
    exact bytes_take_less _ 0 n (line_ends_positive _ n ends) within
  · refine ends.imp_of_mem fun _ there less => ?_
    exact bytes_take_less _ _ _ less ((line_ends_iff _ _).mp there).1

theorem line_starts_iff (offset : Nat) :
    offset ∈ (lineStarts text).toList ↔
      ∃ n ≤ text.toList.length, (n = 0 ∨ endsAt text.toList n = true) ∧ offset = bytes (text.toList.take n) := by
  rw [line_starts_list, List.mem_cons, List.mem_map]
  constructor
  · rintro (rfl | ⟨n, there, rfl⟩)
    · exact ⟨0, Nat.zero_le _, .inl rfl, rfl⟩
    · obtain ⟨within, ends⟩ := (line_ends_iff _ n).mp there
      exact ⟨n, within, .inr ends, rfl⟩
  · rintro ⟨n, within, rfl | ends, rfl⟩
    · exact .inl rfl
    · exact .inr ⟨n, (line_ends_iff _ n).mpr ⟨within, ends⟩, rfl⟩

/-- The line of an offset is the last one that begins at it or before it. -/
theorem line_index_last (offset : Nat) :
    search (lineStarts text) offset ≠ .missing 0 ∧
      ∃ place : Fin (lineStarts text).size, lineIndex (lineStarts text) offset = place ∧
        (lineStarts text)[place] ≤ offset ∧
        ∀ j (within : j < (lineStarts text).size), place.val < j → offset < (lineStarts text)[j] := by
  obtain ⟨place, found, most, later⟩ := search_place (lineStarts text) offset (line_starts_ascending text)
    ⟨Nat.succ_pos _, Nat.zero_le offset⟩
  rw [lineIndex]
  rcases found with same | same <;> rw [same]
  · exact ⟨nofun, place, rfl, most, later⟩
  · exact ⟨fun none => absurd (Found.missing.inj none) (Nat.succ_ne_zero _), place, rfl, most, later⟩

-- In an ascending list the numbers up to another one come first.
theorem count_up_to (xs : List Nat) (x place : Nat) (ascending : xs.Pairwise (· < ·)) (within : place < xs.length)
    (most : xs[place] ≤ x) (later : ∀ j (inside : j < xs.length), place < j → x < xs[j]) :
    xs.countP (· ≤ x) = place + 1 := by
  have before : (xs.take (place + 1)).countP (· ≤ x) = (xs.take (place + 1)).length := by
    refine List.countP_eq_length.mpr fun y member => decide_eq_true ?_
    obtain ⟨j, inside, rfl⟩ := List.mem_take_iff_getElem.mp member
    rcases Nat.eq_or_lt_of_le (show j ≤ place by omega) with rfl | less
    · exact most
    · exact Nat.le_trans (Nat.le_of_lt (List.pairwise_iff_getElem.mp ascending j place (by omega) within less)) most
  have after : (xs.drop (place + 1)).countP (· ≤ x) = 0 := by
    refine List.countP_eq_zero.mpr fun y member => ?_
    obtain ⟨j, inside, rfl⟩ := List.mem_drop_iff_getElem.mp member
    have less := later (place + 1 + j) (by omega) (by omega)
    simpa using less
  rw [← List.take_append_drop (place + 1) xs, List.countP_append, before, after, List.length_take]
  omega

end

section

variable (cs : List Char) (n : Nat) (within : n ≤ cs.length)
include within

theorem lines_ended_count : (lineEnds cs).countP (· ≤ n) = linesEnded cs n := by
  have split : List.range (cs.length + 1) = List.range (n + 1) ++ (List.range (cs.length - n)).map (n + 1 + ·) := by
    rw [← List.range_add]
    congr 1
    omega
  rw [lineEnds, List.countP_filter, linesEnded, split, List.countP_append, List.countP_map]
  have later : (List.range (cs.length - n)).countP ((fun i => decide (i ≤ n) && endsAt cs i) ∘ (n + 1 + ·)) = 0 := by
    refine List.countP_eq_zero.mpr fun i _ => ?_
    simp only [Function.comp_apply, Bool.and_eq_true, decide_eq_true_eq]
    omega
  rw [later, Nat.add_zero]
  refine List.countP_congr fun i member => ?_
  have most : i ≤ n := by
    have less := List.mem_range.mp member
    omega
  simp [most]

end

section

variable (text : String) (n : Nat) (within : n ≤ text.toList.length)
include within

theorem line_index_place :
    lineIndex (lineStarts text) (bytes (text.toList.take n)) = linesEnded text.toList n := by
  obtain ⟨_, place, same, most, later⟩ := line_index_last text (bytes (text.toList.take n))
  have count := count_up_to (lineStarts text).toList _ place (line_starts_ascending text) place.isLt most later
  have ends : (lineEnds text.toList).countP ((· ≤ bytes (text.toList.take n)) ∘ fun i => bytes (text.toList.take i)) =
      (lineEnds text.toList).countP (· ≤ n) := by
    refine List.countP_congr fun i there => ?_
    have inside := ((line_ends_iff _ i).mp there).1
    simp only [Function.comp_apply, decide_eq_true_eq]
    exact bytes_take_iff text.toList i n inside within
  rw [line_starts_list, List.countP_cons, List.countP_map, ends, lines_ended_count _ _ within,
    if_pos (decide_eq_true (Nat.zero_le _))] at count
  omega

theorem line_start_place :
    (lineStarts text).getD (lineIndex (lineStarts text) (bytes (text.toList.take n))) 0 =
      bytes (text.toList.take (lineStart text.toList n)) := by
  obtain ⟨_, place, same, most, later⟩ := line_index_last text (bytes (text.toList.take n))
  have start : (lineStarts text).getD place 0 = (lineStarts text)[place] := by
    rw [Array.getD, dif_pos place.isLt]
    rfl
  have least : lineStart text.toList n ≤ n := Nat.findGreatest_le n
  rw [same, start]
  apply Nat.le_antisymm
  · obtain ⟨i, inside, ends, begins⟩ := (line_starts_iff text _).mp (Array.getElem_mem_toList place.isLt)
    have upto : i ≤ n := by
      rw [Fin.getElem_fin, begins] at most
      exact (bytes_take_iff _ i n inside within).mp most
    rw [Fin.getElem_fin, begins, bytes_take_iff _ _ _ inside (by omega)]
    rcases ends with rfl | ends
    · exact Nat.zero_le _
    · exact Nat.le_findGreatest upto ends
  · have begins : bytes (text.toList.take (lineStart text.toList n)) ∈ (lineStarts text).toList := by
      refine (line_starts_iff text _).mpr ⟨_, Nat.le_trans least within, ?_, rfl⟩
      rcases Nat.eq_zero_or_pos (lineStart text.toList n) with none | positive
      · exact .inl none
      · exact .inr (Nat.findGreatest_of_ne_zero rfl (Nat.ne_of_gt positive))
    obtain ⟨j, inside, found⟩ := List.mem_iff_getElem.mp begins
    have early : j ≤ place := by
      by_contra past
      have above := later j inside (by omega)
      have upto := (bytes_take_iff text.toList _ n (Nat.le_trans least within) within).mpr least
      rw [← found] at upto
      exact absurd above (Nat.not_lt.mpr upto)
    rw [← found]
    rcases Nat.eq_or_lt_of_le early with rfl | less
    · exact Nat.le_refl _
    · exact Nat.le_of_lt (ascending_less _ (line_starts_ascending text) j place less place.isLt)

/-- The line and the column of the place after so many characters. -/
theorem line_col_place :
    lineCol text (bytes (text.toList.take n)) =
      (1 + linesEnded text.toList n, 1 + (n - lineStart text.toList n)) := by
  have least : lineStart text.toList n ≤ n := Nat.findGreatest_le n
  have parts : text.toList.take n =
      text.toList.take (lineStart text.toList n) ++
        (text.toList.drop (lineStart text.toList n)).take (n - lineStart text.toList n) := by
    rw [← List.take_add, Nat.add_sub_cancel' least]
  have stop : min (bytes (text.toList.take n)) text.utf8ByteSize = bytes (text.toList.take n) := by
    rw [bytes_of]
    refine Nat.min_eq_left ?_
    have whole := (bytes_take_iff text.toList n _ within (Nat.le_refl _)).mpr within
    rwa [List.take_length] at whole
  have size : bytes (text.toList.take n) - bytes (text.toList.take (lineStart text.toList n)) =
      bytes ((text.toList.drop (lineStart text.toList n)).take (n - lineStart text.toList n)) := by
    rw [parts, bytes_append, Nat.add_sub_cancel_left]
  have dropped : dropBytes text.toList (bytes (text.toList.take (lineStart text.toList n))) =
      some (text.toList.drop (lineStart text.toList n)) := by
    have found := drop_bytes (text.toList.take (lineStart text.toList n)) (text.toList.drop (lineStart text.toList n))
    rwa [List.take_append_drop] at found
  have counted : charsInBytes (text.toList.drop (lineStart text.toList n))
      (bytes ((text.toList.drop (lineStart text.toList n)).take (n - lineStart text.toList n))) =
        some (n - lineStart text.toList n) := by
    have found := chars_in_bytes ((text.toList.drop (lineStart text.toList n)).take (n - lineStart text.toList n))
      ((text.toList.drop (lineStart text.toList n)).drop (n - lineStart text.toList n))
    rw [List.take_append_drop] at found
    rw [found, List.length_take, List.length_drop]
    congr 1
    omega
  rw [lineCol, line_start_place text n within, line_index_place text n within, stop, size, dropped, Option.bind_some, counted,
    Option.getD_some, Nat.add_comm 1, Nat.add_comm 1]

end

/-! The order of places. -/

-- On the way to a later place either a line ends or the line stays the same.
theorem line_goes_on (cs : List Char) (m n : Nat) (most : m ≤ n) :
    linesEnded cs m < linesEnded cs n ∨ linesEnded cs m = linesEnded cs n ∧ lineStart cs m = lineStart cs n := by
  induction n, most using Nat.le_induction with
  | base => exact .inr ⟨rfl, rfl⟩
  | succ n most hyp =>
    have count : linesEnded cs (n + 1) = linesEnded cs n + if endsAt cs (n + 1) then 1 else 0 := by
      rw [linesEnded, List.range_succ, List.countP_append, List.countP_singleton]
      rfl
    rw [count]
    by_cases ends : endsAt cs (n + 1) = true
    · rw [if_pos ends]
      omega
    · have start : lineStart cs (n + 1) = lineStart cs n := Nat.findGreatest_of_not ends
      rw [if_neg ends, start]
      exact hyp

theorem places_in_order (text : String) (m n : Nat) (less : m < n) (within : n ≤ text.toList.length) :
    Prod.Lex (· < ·) (· < ·) (lineCol text (bytes (text.toList.take m))) (lineCol text (bytes (text.toList.take n))) := by
  rw [line_col_place text m (by omega), line_col_place text n within, Prod.lex_iff]
  rcases line_goes_on text.toList m n (Nat.le_of_lt less) with more | ⟨lines, starts⟩
  · exact .inl (Nat.add_lt_add_left more 1)
  · have least : lineStart text.toList m ≤ m := Nat.findGreatest_le m
    refine .inr ⟨by rw [lines], ?_⟩
    dsimp only
    omega

theorem place_of_boundary (text : String) (p : String.Pos.Raw) (boundary : p.IsValid text) :
    ∃ n ≤ text.toList.length, p.byteIdx = bytes (text.toList.take n) := by
  obtain ⟨before, after, rfl, rfl⟩ := String.Pos.Raw.isValid_iff_exists_append.mp boundary
  refine ⟨before.toList.length, ?_, ?_⟩
  · rw [String.toList_append, List.length_append]
    exact Nat.le_add_right _ _
  · rw [String.toList_append, List.take_left, ← bytes_of]
    rfl

/--
The line and the column of a place. Lines begin at ascending offsets, the first at the start of the text, so that
a place always has a line; it is told by the line ends before the place and by the characters since the last of these.
-/
theorem line_col_exact (text : String) :
    (lineStarts text)[0]? = some 0 ∧ (lineStarts text).toList.Pairwise (· < ·) ∧
      (∀ offset, search (lineStarts text) offset ≠ .missing 0 ∧
        lineIndex (lineStarts text) offset < (lineStarts text).size) ∧
      (∀ before after : String, text = before ++ after →
        lineCol text before.utf8ByteSize = (1 + linesEnded text.toList before.length,
          1 + (before.length - lineStart text.toList before.length))) ∧
      ∀ p q : String.Pos.Raw, p.IsValid text → q.IsValid text →
        (p < q ↔ Prod.Lex (· < ·) (· < ·) (lineCol text p.byteIdx) (lineCol text q.byteIdx)) := by
  refine ⟨rfl, line_starts_ascending text, fun offset => ?_, ?_, fun p q first second => ?_⟩
  · obtain ⟨found, place, same, _⟩ := line_index_last text offset
    exact ⟨found, same ▸ place.isLt⟩
  · rintro before after rfl
    have taken : before.toList = (before ++ after).toList.take before.length := by
      rw [String.toList_append, ← String.length_toList, List.take_left]
    have within : before.length ≤ (before ++ after).toList.length := by
      rw [String.toList_append, List.length_append, String.length_toList]
      exact Nat.le_add_right _ _
    rw [bytes_of, taken]
    exact line_col_place (before ++ after) before.length within
  · obtain ⟨m, left, first⟩ := place_of_boundary text p first
    obtain ⟨n, right, second⟩ := place_of_boundary text q second
    rw [String.Pos.Raw.lt_iff, first, second]
    rcases Nat.lt_trichotomy m n with less | rfl | more
    · exact iff_of_true (bytes_take_less _ m n less right) (places_in_order text m n less right)
    · exact iff_of_false (Nat.lt_irrefl _) (irrefl _)
    · have later := places_in_order text n m more left
      have less := bytes_take_less _ n m more left
      exact iff_of_false (Nat.lt_asymm less) (asymm later)

-- Between CR and LF the line has not ended yet, after LF it has.
theorem line_col_exact_between :
    lineCol "a\r\n\u2028b" 2 = (1, 3) ∧ lineCol "a\r\n\u2028b" 3 = (2, 1) ∧ lineCol "a\r\n\u2028b" 6 = (3, 1) := by
  obtain ⟨_, _, _, places, _⟩ := line_col_exact "a\r\n\u2028b"
  refine ⟨(places "a\r" "\n\u2028b" rfl).trans ?_, (places "a\r\n" "\u2028b" rfl).trans ?_,
    (places "a\r\n\u2028" "b" rfl).trans ?_⟩ <;> decide

end Ecma.Text
