import LoopTape.Text.Position
import Mathlib.Data.List.DropRight

/-! Lines and columns of byte offsets.

The line of an offset is told by the line feeds among the bytes in front of it, and its column by how
far it is behind the start of that line. So later offsets have later positions, and a position tells its
offset. The lines are the pieces between the line feeds, and each of them is cut out of the text between
characters.
-/

set_option autoImplicit false

namespace LoopTape

def utf8Bytes (text : List Char) : List UInt8 := text.flatMap String.utf8EncodeChar

theorem toNat_of_mem_utf8EncodeChar {c : Char} {b : UInt8} (member : b ∈ String.utf8EncodeChar c) :
    b.toNat = c.toNat ∨ 128 ≤ b.toNat := by
  have number : c.val.toNat = c.toNat := rfl
  simp only [String.utf8EncodeChar, number] at member
  split at member
  · simp only [List.mem_singleton] at member
    subst member
    left
    simp
    omega
  · right
    split at member
    · simp at member
      rcases member with rfl | rfl <;> simp <;> omega
    · split at member <;> simp at member
      · rcases member with rfl | rfl | rfl <;> simp <;> omega
      · rcases member with rfl | rfl | rfl | rfl <;> simp <;> omega

def lineFeed : UInt8 := 10

theorem count_lineFeed_char {c : Char} (other : c ≠ '\n') :
    (String.utf8EncodeChar c).count lineFeed = 0 := by
  apply List.count_eq_zero.mpr
  intro member
  rcases toNat_of_mem_utf8EncodeChar member with same | high
  · exact other (Char.toNat_inj.mp same.symm)
  · exact absurd high (by decide)

theorem utf8Bytes_cons (c : Char) (rest : List Char) :
    utf8Bytes (c :: rest) = String.utf8EncodeChar c ++ utf8Bytes rest := List.flatMap_cons

theorem lineStartsFrom_lineFeed (offset : Nat) (rest : List Char) :
    lineStartsFrom offset ('\n' :: rest) = (offset + 1) :: lineStartsFrom (offset + 1) rest := rfl

theorem lineStartsFrom_other {c : Char} (other : c ≠ '\n') (offset : Nat) (rest : List Char) :
    lineStartsFrom offset (c :: rest) = lineStartsFrom (offset + c.utf8Size) rest := by
  rw [lineStartsFrom, if_neg other]

theorem lt_of_mem_lineStartsFrom {text : List Char} {offset start : Nat}
    (member : start ∈ lineStartsFrom offset text) : offset < start := by
  induction text generalizing offset with
  | nil => cases member
  | cons c rest ih =>
    have positive := c.utf8Size_pos
    by_cases feed : c = '\n'
    · subst feed
      rw [lineStartsFrom_lineFeed] at member
      rcases List.mem_cons.mp member with rfl | later
      · exact Nat.lt_succ_self offset
      · exact Nat.lt_of_succ_lt (ih later)
    · rw [lineStartsFrom_other feed] at member
      have later := ih member
      omega

theorem filter_lineStartsFrom_of_le {text : List Char} {offset bound : Nat} (before : bound ≤ offset) :
    (lineStartsFrom offset text).filter (· ≤ bound) = [] := by
  apply List.filter_eq_nil_iff.mpr
  intro start member
  have behind := lt_of_mem_lineStartsFrom member
  simp only [decide_eq_true_eq]
  omega

/-- One line starts behind each line feed. -/
theorem length_filter_lineStartsFrom (text : List Char) (offset count : Nat) :
    ((lineStartsFrom offset text).filter (· ≤ offset + count)).length =
      ((utf8Bytes text).take count).count lineFeed := by
  induction text generalizing offset count with
  | nil => simp [lineStartsFrom, utf8Bytes]
  | cons c rest ih =>
    rw [utf8Bytes_cons]
    by_cases feed : c = '\n'
    · subst feed
      have encoded : String.utf8EncodeChar '\n' = [lineFeed] := rfl
      rw [encoded, List.singleton_append, lineStartsFrom_lineFeed]
      cases count with
      | zero =>
        have none : offset + 0 < offset + 1 := by omega
        rw [List.filter_cons_of_neg (by simp), filter_lineStartsFrom_of_le (Nat.le_of_lt none)]
        rfl
      | succ count =>
        have later := ih (offset + 1) count
        rw [Nat.add_right_comm, Nat.add_assoc] at later
        rw [List.filter_cons_of_pos (by simp), List.length_cons, List.take_succ_cons,
          List.count_cons_self, later]
    · rw [lineStartsFrom_other feed, List.take_append, List.count_append]
      have own := count_lineFeed_char feed
      have part : ((String.utf8EncodeChar c).take count).count lineFeed = 0 :=
        Nat.le_zero.mp (own ▸ (List.take_sublist _ _).count_le lineFeed)
      rw [part, Nat.zero_add, String.length_utf8EncodeChar]
      by_cases inside : count < c.utf8Size
      · rw [filter_lineStartsFrom_of_le (by omega), Nat.sub_eq_zero_of_le (Nat.le_of_lt inside)]
        rfl
      · have later := ih (offset + c.utf8Size) (count - c.utf8Size)
        rwa [show offset + c.utf8Size + (count - c.utf8Size) = offset + count by omega] at later

/-- A line starts behind as many line feeds as there are lines in front of it, right behind the last of
them. The first one starts with the text. -/
structure StartsLine (bytes : List UInt8) (number start : Nat) : Prop where
  count : number = (bytes.take start).count lineFeed + 1
  behind : start = 0 ∨ bytes[start - 1]? = some lineFeed

theorem count_take_mono (bytes : List UInt8) {a b : Nat} (le : a ≤ b) :
    (bytes.take a).count lineFeed ≤ (bytes.take b).count lineFeed :=
  (List.take_sublist_take_left le).count_le lineFeed

theorem StartsLine.start_le {bytes : List UInt8} {number first second : Nat}
    (one : StartsLine bytes number first) (other : StartsLine bytes number second) :
    second ≤ first := by
  apply Nat.le_of_not_lt
  intro less
  rcases other.behind with rfl | feed
  · exact Nat.not_lt_zero first less
  · -- The line feed in front of the later start would be one more.
    have last := List.take_add_one (l := bytes) (i := second - 1)
    rw [Nat.sub_add_cancel (Nat.zero_lt_of_lt less), feed] at last
    have fewer := count_take_mono bytes (Nat.le_sub_one_of_lt less)
    have same := one.count.symm.trans other.count
    rw [last, List.count_append, Option.toList_some, List.count_singleton_self] at same
    omega

theorem StartsLine.unique {bytes : List UInt8} {number first second : Nat}
    (one : StartsLine bytes number first) (other : StartsLine bytes number second) :
    first = second := Nat.le_antisymm (other.start_le one) (one.start_le other)

/-- What the position of an offset says: how many line feeds there are in front of it, and how far it is
behind the start of its line. -/
structure Locates (bytes : List UInt8) (offset : Nat) (p : Position) : Prop where
  line : p.line = 1 + (bytes.take offset).count lineFeed
  column : ∃ start, StartsLine bytes p.line start ∧ start ≤ offset ∧ p.column = offset - start + 1 ∧
    start + (p.column - 1) = offset

def Position.Before (p q : Position) : Prop := p.line < q.line ∨ p.line = q.line ∧ p.column < q.column

theorem Locates.before {bytes : List UInt8} {a b : Nat} {p q : Position} (first : Locates bytes a p)
    (second : Locates bytes b q) (less : a < b) : p.Before q := by
  have fewer := count_take_mono bytes (Nat.le_of_lt less)
  rw [Position.Before]
  rcases Nat.lt_or_ge p.line q.line with before | notBefore
  · exact .inl before
  · have same : p.line = q.line := by
      have p' := first.line
      have q' := second.line
      omega
    obtain ⟨start, starts, -, -, back⟩ := first.column
    obtain ⟨start', starts', -, -, back'⟩ := second.column
    rw [← same] at starts'
    obtain rfl := starts.unique starts'
    exact .inr ⟨same, by omega⟩

theorem length_filter_lineStarts (text : List Char) (bound : Nat) :
    ((lineStarts text).filter (· ≤ bound)).length =
      1 + ((utf8Bytes text).take bound).count lineFeed := by
  have behind := length_filter_lineStartsFrom text 0 bound
  rw [Nat.zero_add] at behind
  rw [lineStarts, List.filter_cons_of_pos (by simp), List.length_cons, behind, Nat.add_comm]

theorem line_locate (text : List Char) (offset : Nat) :
    (locate text offset).line = 1 + ((utf8Bytes text).take offset).count lineFeed :=
  length_filter_lineStarts text offset

def lines (text : List Char) : List (List Char) := text.splitOn '\n'

theorem lines_lineFeed (rest : List Char) : lines ('\n' :: rest) = [] :: lines rest := by
  rw [lines, List.splitOn, List.splitOnP_cons_eq_if_modifyHead, if_pos (by decide)]
  rfl

theorem lines_other {c : Char} (other : c ≠ '\n') (rest : List Char) :
    lines (c :: rest) = (lines rest).modifyHead (c :: ·) := by
  rw [lines, List.splitOn, List.splitOnP_cons_eq_if_modifyHead, if_neg (by simpa using other)]
  rfl

theorem length_lines (text : List Char) (offset : Nat) :
    (lines text).length = (offset :: lineStartsFrom offset text).length := by
  induction text generalizing offset with
  | nil => rfl
  | cons c rest ih =>
    by_cases feed : c = '\n'
    · subst feed
      rw [lines_lineFeed, lineStartsFrom_lineFeed, List.length_cons, ih (offset + 1)]
      rfl
    · rw [lines_other feed, lineStartsFrom_other feed, List.length_modifyHead]
      exact ih (offset + c.utf8Size)

/-- A line stands between the place where it starts and the line feed in front of the next one. -/
theorem exists_of_line {text piece : List Char} {index : Nat} (offset : Nat)
    (line : (lines text)[index]? = some piece) :
    ∃ front back, text = front ++ (piece ++ back) ∧
      (offset :: lineStartsFrom offset text)[index]? = some (offset + byteLength front) ∧
      (lineStartsFrom offset text)[index]? =
        back.head?.map fun _ => offset + byteLength (front ++ piece) + 1 := by
  induction text generalizing offset index piece with
  | nil =>
    cases index with
    | zero =>
      cases line
      exact ⟨[], [], rfl, rfl, rfl⟩
    | succ index => cases line
  | cons c rest ih =>
    by_cases feed : c = '\n'
    · subst feed
      rw [lines_lineFeed] at line
      rw [lineStartsFrom_lineFeed]
      cases index with
      | zero =>
        cases line
        exact ⟨[], '\n' :: rest, rfl, rfl, rfl⟩
      | succ index =>
        obtain ⟨front, back, rfl, start, next⟩ := ih (offset + 1) line
        have longer : offset + byteLength ('\n' :: front) = offset + 1 + byteLength front := by
          rw [byteLength_cons, show '\n'.utf8Size = 1 by decide, Nat.add_assoc]
        refine ⟨'\n' :: front, back, rfl, ?_, ?_⟩
        · rw [longer, ← start, List.getElem?_cons_succ]
        · rw [List.cons_append, byteLength_cons, show '\n'.utf8Size = 1 by decide, ← Nat.add_assoc,
            ← next, List.getElem?_cons_succ]
    · rw [lines_other feed, List.getElem?_modifyHead] at line
      rw [lineStartsFrom_other feed]
      cases index with
      | zero =>
        obtain ⟨own, first, rfl⟩ := Option.map_eq_some_iff.mp line
        obtain ⟨front, back, rfl, start, next⟩ := ih (offset + c.utf8Size) first
        -- The first line starts with the text.
        obtain rfl : front = [] := eq_nil_of_byteLength (by simpa using start.symm)
        refine ⟨[], back, rfl, rfl, ?_⟩
        rw [next]
        simp [Nat.add_assoc]
      | succ index =>
        obtain ⟨front, back, rfl, start, next⟩ := ih (offset + c.utf8Size) line
        refine ⟨c :: front, back, rfl, ?_, ?_⟩
        · rw [byteLength_cons, ← Nat.add_assoc, ← start]
          rfl
        · rw [List.cons_append, byteLength_cons, ← Nat.add_assoc, next]

theorem splitBytes?_append (front back : List Char) :
    splitBytes? (byteLength front) (front ++ back) = some (front, back) := by
  induction front with
  | nil => rw [byteLength_nil, List.nil_append, splitBytes?]
  | cons c rest ih =>
    obtain ⟨n, size⟩ : ∃ n, c.utf8Size + byteLength rest = n + 1 :=
      Nat.exists_eq_add_one.mpr (Nat.add_pos_left c.utf8Size_pos _)
    have left : n + 1 - c.utf8Size = byteLength rest := by omega
    rw [byteLength_cons, List.cons_append, size, splitBytes?, if_pos (by omega), left, ih]
    rfl

theorem slice?_append (front piece back : List Char) :
    slice? (front ++ (piece ++ back)) ⟨byteLength front, byteLength (front ++ piece)⟩ = some piece := by
  have size : byteLength (front ++ piece) - byteLength front = byteLength piece := by
    rw [byteLength_append, Nat.add_sub_cancel_left]
  have upTo : byteLength front ≤ byteLength (front ++ piece) := by
    rw [byteLength_append]
    exact Nat.le_add_right _ _
  rw [slice?, guard, if_pos upTo, splitBytes?_append, size]
  simp only [Option.bind_eq_bind, Option.bind_some, splitBytes?_append, Option.pure_def]

/-- The bytes of each line can be cut out of the text, and are those of the piece between line feeds. -/
theorem slice?_line {text piece : List Char} {index : Nat} (line : (lines text)[index]? = some piece) :
    ∃ span, lineSpan? text (index + 1) = some span ∧ slice? text span = some piece := by
  obtain ⟨front, back, split, start, next⟩ := exists_of_line 0 line
  have start : (lineStarts text)[index]? = some (byteLength front) := by
    rwa [Nat.zero_add] at start
  have next : (lineStarts text)[index + 1]? =
      back.head?.map fun _ => byteLength (front ++ piece) + 1 := by
    rwa [Nat.zero_add] at next
  refine ⟨⟨byteLength front, byteLength (front ++ piece)⟩, ?_, ?_⟩
  · -- Behind the last line is nothing, so it stops where the text does.
    cases back with
    | nil =>
      have size : byteLength text = byteLength (front ++ piece) := by rw [split, List.append_nil]
      simp [lineSpan?, start, next, size]
    | cons d more => simp [lineSpan?, start, next]
  · rw [split]
    exact slice?_append front piece back

theorem lineText_line {text piece : List Char} {index : Nat}
    (line : (lines text)[index]? = some piece) :
    lineText text (index + 1) = dropReturns piece := by
  obtain ⟨span, here, cut⟩ := slice?_line line
  simp only [lineText, here, cut, Option.getD_some]

theorem exists_line_locate (text : List Char) (offset : Nat) :
    ∃ index piece, (locate text offset).line = index + 1 ∧ (lines text)[index]? = some piece := by
  have upTo : (locate text offset).line ≤ (lines text).length := by
    rw [length_lines text 0]
    exact List.length_filter_le _ _
  obtain ⟨index, number⟩ : ∃ index, (locate text offset).line = index + 1 :=
    ⟨_, (line_locate text offset).trans (Nat.add_comm _ _)⟩
  have bound : index < (lines text).length := by
    rw [number] at upTo
    exact Nat.lt_of_succ_le upTo
  exact ⟨index, _, number, List.getElem?_eq_getElem bound⟩

theorem piece_eq_lineText {text piece : List Char} {index : Nat}
    (line : (lines text)[index]? = some piece) :
    ∃ returns, piece = lineText text (index + 1) ++ List.replicate returns '\r' ∧
      (lineText text (index + 1)).getLast? ≠ some '\r' := by
  have kept : lineText text (index + 1) = piece.rdropWhile (· = '\r') := lineText_line line
  rw [kept]
  have returns : piece.rtakeWhile (· = '\r') =
      List.replicate (piece.rtakeWhile (· = '\r')).length '\r' := by
    apply List.eq_replicate_of_mem
    intro c member
    simpa using List.mem_rtakeWhile_imp member
  refine ⟨(piece.rtakeWhile (· = '\r')).length, ?_, ?_⟩
  · rw [← returns, List.rdropWhile_append_rtakeWhile]
  · intro last
    obtain ⟨front, whole⟩ := List.getLast?_eq_some_iff.mp last
    have other := List.rdropWhile_last_not (· = '\r') piece (by simp [whole])
    simp [whole] at other

end LoopTape
