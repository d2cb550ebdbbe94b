import Nes6502.HexDump
import Nes6502.Proofs.Hex

/-!
# Reading a dump back

A dump has a line for every sixteen bytes, and its columns are fixed: where the cell of a byte
begins depends on the place of the byte in its line and on nothing else, and so it is with the
characters between the bars. Cells without a byte are left blank, which keeps the columns of a last
line that is shorter. `HexDump.read` takes the lines of a text and the cells of each line.

## What is proved

* `HexDump.row_lineText`, `HexDump.spaced_lineText`: how a line is laid out.
* `HexDump.Row.eq_lineText`: only one line is laid out so.
* `HexDump.readLine_lineText`: the cells of a line hold its bytes.
* `HexDump.getElem?_lines_render`: the lines of a dump, by their place.
* `HexDump.render_append`: whole lines are followed by a dump of what is left.
* `dump_lossless`: a dump has the layout that is said, and reads back.
-/

set_option autoImplicit false

namespace Nes6502

namespace HexDump

/-! ## The layout of a line -/

/-- The column that the cell of a byte begins in. There is a gap after the eighth cell. -/
def cellColumn (i : Nat) : Nat := 6 + 3 * i + if i < 8 then 0 else 1

/-- The column of the first character between the bars. -/
def gutterColumn : Nat := 57

/-- A line of a dump: the address in four digits, the cells in their columns, blank where there is
no byte, and a character for each byte between two bars. -/
structure Row (address : Nat) (row : List UInt8) (text : List Char) : Prop where
  address : Hex.Numeral (text.take 4) 4 address
  colon : (text.drop 4).take 2 = [':', ' ']
  cell : ∀ i (hi : i < row.length),
    Hex.Numeral ((text.drop (cellColumn i)).take 2) 2 row[i].toNat
  blank : ∀ i, row.length ≤ i → i < width → (text.drop (cellColumn i)).take 2 = [' ', ' ']
  opening : text[gutterColumn - 1]? = some '|'
  printable : ∀ i (hi : i < row.length), 0x20 ≤ row[i] → row[i] ≤ 0x7E →
    text[gutterColumn + i]?.map Char.toNat = some row[i].toNat
  unprintable : ∀ i (hi : i < row.length), row[i] < 0x20 ∨ 0x7E < row[i] →
    text[gutterColumn + i]? = some '.'
  closing : text[gutterColumn + row.length]? = some '|'
  length : text.length = gutterColumn + row.length + 1

/-- The cells of a line. -/
def cells (row : List UInt8) (count : Nat) : List Char := (List.range count).flatMap (cellText row)

/-- A line without the newline that ends it. -/
def lineText (address : UInt16) (row : List UInt8) : List Char :=
  Hex.word .upper address ++ [':', ' '] ++ cells row width ++ [' ', '|'] ++ row.map gutterChar ++
    ['|']

theorem line_eq (address : UInt16) (row : List UInt8) :
    line address row = lineText address row ++ ['\n'] := by
  simp only [line, lineText, cells, List.append_assoc]
  rfl

/-- What follows a cell. -/
def gap (i : Nat) : List Char := if i = 7 then [' ', ' '] else [' ']

theorem cellText_of_lt {row : List UInt8} {i : Nat} (hi : i < row.length) :
    cellText row i = Hex.byte .upper row[i] ++ gap i := by
  simp only [cellText, List.getElem?_eq_getElem hi]
  rfl

theorem cellText_of_le {row : List UInt8} {i : Nat} (hi : row.length ≤ i) :
    cellText row i = [' ', ' '] ++ gap i := by
  simp only [cellText, List.getElem?_eq_none hi]
  rfl

theorem length_cellText (row : List UInt8) (i : Nat) :
    (cellText row i).length = 2 + (gap i).length := by
  rcases Nat.lt_or_ge i row.length with hi | hi
  · rw [cellText_of_lt hi, List.length_append]
    rfl
  · rw [cellText_of_le hi, List.length_append]
    rfl

theorem length_cells (row : List UInt8) (count : Nat) :
    (cells row count).length = 3 * count + if count < 8 then 0 else 1 := by
  induction count with
  | zero => rfl
  | succ count ih =>
    rw [cells, List.range_succ, List.flatMap_append, List.length_append]
    show (cells row count).length + (cellText row count ++ []).length = _
    rw [ih, List.append_nil, length_cellText, gap]
    grind

/-- What stands from the column of a cell on. -/
theorem drop_cells (row : List UInt8) {i : Nat} (hi : i < width) :
    ∃ rest, (cells row width).drop (cells row i).length = cellText row i ++ rest := by
  obtain ⟨more, hmore⟩ := Nat.exists_eq_add_of_lt hi
  refine ⟨(List.map (i + 1 + ·) (List.range more)).flatMap (cellText row), ?_⟩
  have hcells : cells row width = cells row i ++
      (cellText row i ++ (List.map (i + 1 + ·) (List.range more)).flatMap (cellText row)) := by
    rw [show width = i + 1 + more by omega, cells, List.range_add, List.flatMap_append,
      List.range_succ, List.flatMap_append, List.append_assoc]
    simp only [cells, List.flatMap_cons, List.flatMap_nil, List.append_nil]
  rw [hcells, List.drop_left]

/-- What stands from the column of a cell on, in the whole line. -/
theorem drop_cellColumn (address : UInt16) (row : List UInt8) {i : Nat} (hi : i < width) :
    ∃ rest, (lineText address row).drop (cellColumn i) = cellText row i ++ rest := by
  obtain ⟨rest, hrest⟩ := drop_cells row hi
  refine ⟨rest ++ ([' ', '|'] ++ row.map gutterChar ++ ['|']), ?_⟩
  have hcolumn : cellColumn i = 6 + (cells row i).length := by
    rw [length_cells, cellColumn, Nat.add_assoc]
  have hle : (cells row i).length ≤ (cells row width).length := by
    rw [length_cells, length_cells]
    grind [width]
  have htext : lineText address row = Hex.word .upper address ++ [':', ' '] ++
      (cells row width ++ ([' ', '|'] ++ row.map gutterChar ++ ['|'])) := by
    simp only [lineText, List.append_assoc]
  rw [htext, hcolumn, ← List.drop_drop]
  show List.drop _ (cells row width ++ _) = _
  rw [List.drop_append_of_le_length hle, hrest, List.append_assoc]

theorem drop_cellColumn_of_lt (address : UInt16) {row : List UInt8} {i : Nat} (hi : i < width)
    (hrow : i < row.length) :
    ∃ rest, (lineText address row).drop (cellColumn i) = Hex.byte .upper row[i] ++ rest := by
  obtain ⟨rest, hrest⟩ := drop_cellColumn address row hi
  exact ⟨gap i ++ rest, by rw [hrest, cellText_of_lt hrow, List.append_assoc]⟩

theorem drop_cellColumn_of_le (address : UInt16) {row : List UInt8} {i : Nat} (hi : i < width)
    (hrow : row.length ≤ i) :
    ∃ rest, (lineText address row).drop (cellColumn i) = ' ' :: ' ' :: rest := by
  obtain ⟨rest, hrest⟩ := drop_cellColumn address row hi
  exact ⟨gap i ++ rest, by rw [hrest, cellText_of_le hrow]; rfl⟩

/-- What stands from the blank in front of the first bar on. -/
theorem drop_gap (address : UInt16) (row : List UInt8) :
    (lineText address row).drop (gutterColumn - 2) =
      ' ' :: '|' :: (row.map gutterChar ++ ['|']) := by
  have hbefore : (Hex.word .upper address ++ [':', ' '] ++ cells row width).length =
      gutterColumn - 2 := by
    simp only [List.length_append, length_cells]
    rfl
  have htext : lineText address row =
      (Hex.word .upper address ++ [':', ' '] ++ cells row width) ++
        (' ' :: '|' :: (row.map gutterChar ++ ['|'])) := by
    simp only [lineText, List.append_assoc]
    rfl
  rw [htext, List.drop_left' hbefore]

/-- What stands from the column of the first bar on. -/
theorem drop_gutterColumn (address : UInt16) (row : List UInt8) :
    (lineText address row).drop (gutterColumn - 1) = '|' :: (row.map gutterChar ++ ['|']) := by
  rw [show gutterColumn - 1 = gutterColumn - 2 + 1 from rfl, ← List.drop_drop, drop_gap]
  rfl

theorem getElem?_gutter (address : UInt16) (row : List UInt8) (k : Nat) :
    (lineText address row)[gutterColumn - 1 + k]? =
      ('|' :: (row.map gutterChar ++ ['|']))[k]? := by
  rw [← drop_gutterColumn address row, List.getElem?_drop]

theorem getElem?_gutterColumn (address : UInt16) {row : List UInt8} {i : Nat}
    (hi : i < row.length) :
    (lineText address row)[gutterColumn + i]? = some (gutterChar row[i]) := by
  have hgutter := getElem?_gutter address row (i + 1)
  rw [show gutterColumn - 1 + (i + 1) = gutterColumn + i by rw [gutterColumn]; omega] at hgutter
  rw [hgutter, List.getElem?_cons_succ, List.getElem?_append_left (by rwa [List.length_map]),
    List.getElem?_map, List.getElem?_eq_getElem hi, Option.map_some]

theorem toNat_gutterChar {byte : UInt8} (hlow : 0x20 ≤ byte) (hhigh : byte ≤ 0x7E) :
    (gutterChar byte).toNat = byte.toNat := by
  revert hlow hhigh
  obtain ⟨⟨bits⟩⟩ := byte
  revert bits
  decide +kernel

theorem gutterChar_of_unprintable {byte : UInt8} (h : byte < 0x20 ∨ 0x7E < byte) :
    gutterChar byte = '.' := by
  refine if_neg fun hprintable => ?_
  rcases h with h | h
  · exact absurd hprintable.1 (UInt8.not_le.mpr h)
  · exact absurd hprintable.2 (UInt8.not_le.mpr h)

/-- How a line is laid out. -/
theorem row_lineText (address : UInt16) {row : List UInt8} (hrow : row.length ≤ width) :
    Row address.toNat row (lineText address row) where
  address := Hex.numeral_word address
  colon := rfl
  cell i hi := by
    obtain ⟨rest, hrest⟩ := drop_cellColumn_of_lt address (Nat.lt_of_lt_of_le hi hrow) hi
    rw [hrest]
    exact Hex.numeral_byte row[i]
  blank i hi hwidth := by
    obtain ⟨rest, hrest⟩ := drop_cellColumn_of_le address hwidth hi
    rw [hrest]
    rfl
  opening := getElem?_gutter address row 0
  printable i hi hlow hhigh := by
    rw [getElem?_gutterColumn address hi, Option.map_some, toNat_gutterChar hlow hhigh]
  unprintable i hi h := by
    rw [getElem?_gutterColumn address hi, gutterChar_of_unprintable h]
  closing := by
    have hgutter := getElem?_gutter address row (row.length + 1)
    rw [show gutterColumn - 1 + (row.length + 1) = gutterColumn + row.length by
      rw [gutterColumn]; omega] at hgutter
    have hlength : (row.map gutterChar).length = row.length := List.length_map ..
    rw [hgutter, List.getElem?_cons_succ, List.getElem?_append_right (Nat.le_of_eq hlength),
      hlength, Nat.sub_self]
    rfl
  length := by
    have hgutter := congrArg List.length (drop_gutterColumn address row)
    rw [List.length_drop] at hgutter
    simp only [List.length_cons, List.length_append, List.length_map, List.length_nil,
      gutterColumn] at hgutter ⊢
    omega

/-- What a line leaves blank: what follows the digits of a cell, and the column before the bar. -/
structure Spaced (text : List Char) : Prop where
  gap : ∀ i < width, gap i <+: text.drop (cellColumn i + 2)
  bar : text[gutterColumn - 2]? = some ' '

theorem cellColumn_succ (i : Nat) : cellColumn (i + 1) = cellColumn i + 2 + (gap i).length := by
  rw [cellColumn, cellColumn, gap]
  grind

section

variable {address : UInt16} {row : List UInt8} {text : List Char}

/-- A cell is what stands between its column and the next one. -/
theorem Row.drop_cellColumn (h : Row address.toNat row text) (hspaced : Spaced text) {i : Nat}
    (hi : i < width) :
    text.drop (cellColumn i) = cellText row i ++ text.drop (cellColumn (i + 1)) := by
  have hgap : text.drop (cellColumn i + 2) = gap i ++ text.drop (cellColumn (i + 1)) :=
    cellColumn_succ i ▸ Hex.drop_of_prefix (hspaced.gap i hi)
  have hcell : text.drop (cellColumn i) =
      (text.drop (cellColumn i)).take 2 ++ text.drop (cellColumn i + 2) := by
    rw [← List.drop_drop, List.take_append_drop]
  rcases Nat.lt_or_ge i row.length with hrow | hrow
  · rw [hcell, (h.cell i hrow).eq (Hex.numeral_byte _), hgap, cellText_of_lt hrow,
      List.append_assoc]
  · rw [hcell, h.blank i hrow hi, hgap, cellText_of_le hrow, List.append_assoc]

theorem Row.drop_cells (h : Row address.toNat row text) (hspaced : Spaced text) {count : Nat}
    (hcount : count ≤ width) :
    text.drop 6 = cells row count ++ text.drop (cellColumn count) := by
  induction count with
  | zero => rfl
  | succ count ih =>
    rw [ih (Nat.le_of_succ_le hcount), h.drop_cellColumn hspaced hcount, cells, cells,
      List.range_succ, List.flatMap_append, List.flatMap_singleton, List.append_assoc]

theorem Row.getElem?_gutter (h : Row address.toNat row text) {i : Nat} (hi : i < row.length) :
    text[gutterColumn + i]? = some (gutterChar row[i]) := by
  by_cases hdot : row[i] < 0x20 ∨ 0x7E < row[i]
  · rw [h.unprintable i hi hdot, gutterChar_of_unprintable hdot]
  · rw [not_or, UInt8.not_lt, UInt8.not_lt] at hdot
    obtain ⟨c, hc, hvalue⟩ := Option.map_eq_some_iff.mp (h.printable i hi hdot.1 hdot.2)
    rw [hc, Char.toNat_inj.mp (hvalue.trans (toNat_gutterChar hdot.1 hdot.2).symm)]

theorem Row.drop_gutter (h : Row address.toNat row text) :
    text.drop gutterColumn = row.map gutterChar ++ ['|'] := by
  refine List.ext_getElem? fun i => ?_
  rw [List.getElem?_drop]
  rcases Nat.lt_trichotomy i row.length with hi | rfl | hi
  · rw [h.getElem?_gutter hi, List.getElem?_append_left (by rwa [List.length_map]),
      List.getElem?_map, List.getElem?_eq_getElem hi, Option.map_some]
  · rw [h.closing, List.getElem?_append_right (Nat.le_of_eq (List.length_map _)), List.length_map,
      Nat.sub_self]
    rfl
  · have hlength := h.length
    rw [List.getElem?_eq_none (by omega), List.getElem?_eq_none]
    rw [List.length_append, List.length_map]
    exact hi

/-- The layout of a line leaves no choice. -/
theorem Row.eq_lineText (h : Row address.toNat row text) (hspaced : Spaced text) :
    text = lineText address row := by
  have haddress : text = Hex.word .upper address ++ text.drop 4 := by
    rw [← h.address.eq (Hex.numeral_word address), List.take_append_drop]
  have hcolon : text.drop 4 = [':', ' '] ++ text.drop 6 :=
    Hex.drop_of_prefix ⟨_, h.colon ▸ List.take_append_drop 2 _⟩
  have hbars : text.drop (cellColumn width) = [' ', '|'] ++ text.drop gutterColumn := by
    have hbar : text[cellColumn width]? = some ' ' := hspaced.bar
    have hopening : text[cellColumn width + 1]? = some '|' := h.opening
    rw [List.drop_eq_getElem?_toList_append, List.drop_eq_getElem?_toList_append, hbar, hopening]
    rfl
  rw [haddress, hcolon, h.drop_cells hspaced (Nat.le_refl _), hbars, h.drop_gutter]
  simp only [lineText, List.append_assoc]

end

/-! ## Reading a line -/

/-- The bytes in the cells of a line. -/
def readLine (line : List Char) : List UInt8 := Hex.bytesAt line cellColumn width

theorem byteAt?_cellColumn (address : UInt16) (row : List UInt8) {i : Nat} (hi : i < width) :
    Hex.byteAt? (lineText address row) (cellColumn i) = row[i]? := by
  rcases Nat.lt_or_ge i row.length with hrow | hrow
  · obtain ⟨rest, hrest⟩ := drop_cellColumn_of_lt address hi hrow
    rw [Hex.byteAt?_of_drop hrest, List.getElem?_eq_getElem hrow]
  · obtain ⟨rest, hrest⟩ := drop_cellColumn_of_le address hi hrow
    rw [Hex.byteAt?_of_blank hrest, List.getElem?_eq_none hrow]

theorem readLine_lineText (address : UInt16) {row : List UInt8} (hrow : row.length ≤ width) :
    readLine (lineText address row) = row := by
  rw [readLine, Hex.bytesAt_eq_take fun i hi => byteAt?_cellColumn address row hi,
    List.take_of_length_le hrow]

/-! ## Lines -/

/-- The lines of a text, without the newlines that end them. -/
def lines (text : List Char) : List (List Char) := (text.splitOn '\n').dropLast

/-- The bytes in the cells of a text, line by line. -/
def read (text : List Char) : List UInt8 := (lines text).flatMap readLine

theorem lines_cons {line : List Char} (hline : '\n' ∉ line) (text : List Char) :
    lines (line ++ '\n' :: text) = line :: lines text := by
  have hsplit : (line ++ '\n' :: text).splitOn '\n' = line :: text.splitOn '\n' :=
    List.splitOnP_append_cons_of_forall_mem
      (fun _ hc => beq_false_of_ne (ne_of_mem_of_not_mem hc hline)) '\n' rfl text
  have hsome : text.splitOn '\n' ≠ [] := List.splitOnP_ne_nil _ text
  rw [lines, hsplit, List.dropLast_cons_of_ne_nil hsome, lines]

theorem ne_newline_of_isDigit {c : Char} (h : Hex.isDigit c = true) : c ≠ '\n' := by
  rintro rfl
  exact absurd h (by decide)

theorem newline_notMem_cellText (row : List UInt8) (i : Nat) : '\n' ∉ cellText row i := by
  have hgap : '\n' ∉ gap i := by
    rw [gap]
    split <;> decide
  rcases Nat.lt_or_ge i row.length with hi | hi
  · rw [cellText_of_lt hi, List.mem_append, not_or]
    exact ⟨fun h => ne_newline_of_isDigit (Hex.isDigit_of_mem_byte h) rfl, hgap⟩
  · rw [cellText_of_le hi, List.mem_append, not_or]
    exact ⟨by decide, hgap⟩

theorem gutterChar_ne_newline (byte : UInt8) : gutterChar byte ≠ '\n' := by
  obtain ⟨⟨bits⟩⟩ := byte
  revert bits
  decide +kernel

theorem newline_notMem_lineText (address : UInt16) (row : List UInt8) :
    '\n' ∉ lineText address row := by
  simp only [lineText, cells, List.mem_append, List.mem_flatMap, List.mem_map, not_or, not_exists,
    not_and]
  exact ⟨⟨⟨⟨⟨fun h => ne_newline_of_isDigit (Hex.isDigit_of_mem_word h) rfl, by decide⟩,
    fun i _ => newline_notMem_cellText row i⟩, by decide⟩,
    fun byte _ => gutterChar_ne_newline byte⟩, by decide⟩

/-! ## Dumps -/

theorem render_nil (base : UInt16) : render [] base = [] := by rw [render]

theorem render_cons (byte : UInt8) (rest : List UInt8) (base : UInt16) :
    render (byte :: rest) base =
      lineText base ((byte :: rest).take width) ++
        '\n' :: render ((byte :: rest).drop width) (base + UInt16.ofNat width) := by
  rw [render, line_eq, List.append_assoc]
  rfl

theorem lines_render_cons (byte : UInt8) (rest : List UInt8) (base : UInt16) :
    lines (render (byte :: rest) base) =
      lineText base ((byte :: rest).take width) ::
        lines (render ((byte :: rest).drop width) (base + UInt16.ofNat width)) := by
  rw [render_cons, lines_cons (newline_notMem_lineText _ _)]

/-- There is a line for every sixteen bytes, and one for those that are left. -/
theorem length_lines_render (bytes : List UInt8) (base : UInt16) :
    (lines (render bytes base)).length = (bytes.length + 15) / 16 := by
  induction bytes, base using render.induct with
  | case1 => rw [render_nil]; rfl
  | case2 base byte rest ih =>
    rw [lines_render_cons, List.length_cons, ih, List.length_drop, List.length_cons,
      width]
    omega

/-- The text is its lines, each with a newline. -/
theorem flatMap_lines_render (bytes : List UInt8) (base : UInt16) :
    (lines (render bytes base)).flatMap (· ++ ['\n']) = render bytes base := by
  induction bytes, base using render.induct with
  | case1 => rw [render_nil]; rfl
  | case2 base byte rest ih =>
    rw [lines_render_cons, List.flatMap_cons, ih, render_cons, List.append_assoc]
    rfl

/-- The lines of a dump, by their place. -/
theorem getElem?_lines_render (bytes : List UInt8) (base : UInt16) {r : Nat}
    (hr : 16 * r < bytes.length) :
    (lines (render bytes base))[r]? =
      some (lineText (base + UInt16.ofNat (16 * r)) ((bytes.drop (16 * r)).take width)) := by
  induction bytes, base using render.induct generalizing r with
  | case1 => exact absurd hr (Nat.not_lt_zero _)
  | case2 base byte rest ih =>
    rw [lines_render_cons]
    cases r with
    | zero =>
      rw [List.getElem?_cons_zero, Nat.mul_zero, List.drop_zero]
      exact congrArg (fun address => some (lineText address _)) (UInt16.add_zero base).symm
    | succ r =>
      have hnext : 16 * (r + 1) = width + 16 * r := by rw [width]; omega
      rw [List.getElem?_cons_succ, ih (by rw [List.length_drop]; omega), List.drop_drop, hnext,
        UInt16.ofNat_add, UInt16.add_assoc]

theorem read_render (bytes : List UInt8) (base : UInt16) : read (render bytes base) = bytes := by
  induction bytes, base using render.induct with
  | case1 => rw [render_nil]; rfl
  | case2 base byte rest ih =>
    rw [read, lines_render_cons, List.flatMap_cons, ← read, ih,
      readLine_lineText base (List.length_take_le _ _), List.take_append_drop]

/-- Whole lines are followed by a dump of what is left. -/
theorem render_append {bytes : List UInt8} (hwhole : 16 ∣ bytes.length) (rest : List UInt8)
    (base : UInt16) :
    render (bytes ++ rest) base =
      render bytes base ++ render rest (base + UInt16.ofNat bytes.length) := by
  induction bytes, base using render.induct with
  | case1 base =>
    rw [render_nil]
    exact congrArg (render rest) (UInt16.add_zero base).symm
  | case2 base byte more ih =>
    have hwidth : width ≤ (byte :: more).length := Nat.le_of_dvd (Nat.zero_lt_succ _) hwhole
    have hleft : (byte :: more).length = width + ((byte :: more).drop width).length := by
      rw [List.length_drop]
      omega
    have hrest : 16 ∣ ((byte :: more).drop width).length :=
      (Nat.dvd_add_right ⟨1, rfl⟩).mp (hleft ▸ hwhole)
    rw [List.cons_append, render_cons, ← List.cons_append, List.take_append_of_le_length hwidth,
      List.drop_append_of_le_length hwidth, ih hrest, render_cons, hleft, UInt16.ofNat_add,
      UInt16.add_assoc, List.append_assoc, List.cons_append]

end HexDump

open HexDump in
/-- Nothing is lost in a dump. It has a line for every sixteen bytes and one for those that are left
over, each with a newline at its end and no other. A line holds the address of its first byte,
modulo `2 ^ 16`, and its bytes, in columns that do not depend on how many bytes there are. What
stands in the cells, line by line, are the bytes, so at one base two dumps are the same only if the
bytes are. After whole lines, the dump of more bytes is a dump of the others, at the address that
was reached. -/
theorem dump_lossless (bytes : List UInt8) (base : UInt16) :
    let dump := render bytes base
    dump = (lines dump).flatMap (· ++ ['\n']) ∧ (∀ line ∈ lines dump, '\n' ∉ line) ∧
      (lines dump).length = (bytes.length + 15) / 16 ∧
      (∀ r (hr : r < (lines dump).length),
        Row ((base.toNat + 16 * r) % 0x10000) ((bytes.drop (16 * r)).take 16) (lines dump)[r]) ∧
      read dump = bytes ∧
      (∀ other, render other base = dump → other = bytes) ∧
      (16 ∣ bytes.length → ∀ rest,
        render (bytes ++ rest) base = dump ++ render rest (base + UInt16.ofNat bytes.length)) := by
  intro dump
  have hlength : (lines dump).length = (bytes.length + 15) / 16 := length_lines_render bytes base
  have hrow (r : Nat) (hr : r < (lines dump).length) : (lines dump)[r] =
      lineText (base + UInt16.ofNat (16 * r)) ((bytes.drop (16 * r)).take width) := by
    have hline := getElem?_lines_render bytes base (r := r) (by omega)
    rwa [List.getElem?_eq_getElem hr, Option.some_inj] at hline
  refine ⟨(flatMap_lines_render bytes base).symm, fun line hline => ?_, hlength,
    fun r hr => ?_, read_render bytes base, fun other hother => ?_,
    fun hwhole rest => render_append hwhole rest base⟩
  · obtain ⟨r, hr, rfl⟩ := List.mem_iff_getElem.mp hline
    rw [hrow r hr]
    exact newline_notMem_lineText _ _
  · have haddress : (base + UInt16.ofNat (16 * r)).toNat = (base.toNat + 16 * r) % 0x10000 := by
      rw [UInt16.toNat_add, UInt16.toNat_ofNat', Nat.add_mod_mod]
    rw [hrow r hr, ← haddress]
    exact row_lineText _ (List.length_take_le _ _)
  · rw [← read_render other base, hother, read_render]

open HexDump in
/-- Seventeen bytes across the end of memory, printable and not: the second line is at `0x0008`, and
has one byte. -/
theorem dump_lossless_shortLine :
    let bytes := (List.range 16).map fun i => UInt8.ofNat (16 * i + 1)
    let dump := render (bytes ++ [0x7E]) 0xFFF8
    dump = render bytes 0xFFF8 ++ render [0x7E] 0x0008 ∧ read dump = bytes ++ [0x7E] ∧
      (lines dump).length = 2 ∧ Row 0x0008 [0x7E] ((lines dump)[1]!) := by
  intro bytes dump
  obtain ⟨-, -, hlength, hrow, hread, -, -⟩ := dump_lossless (bytes ++ [0x7E]) 0xFFF8
  have hbytes : bytes.length = 16 := by simp only [bytes, List.length_map, List.length_range]
  rw [List.length_append, hbytes] at hlength
  have happend := (dump_lossless bytes 0xFFF8).2.2.2.2.2.2 (hbytes ▸ Nat.dvd_refl 16) [0x7E]
  rw [hbytes] at happend
  have hsecond := hrow 1 (by rw [hlength]; decide)
  rw [← getElem!_pos] at hsecond
  exact ⟨happend, hread, hlength, hsecond⟩

end Nes6502
