import Mathlib.Data.List.Basic
import Mathlib.Algebra.Order.Ring.Nat
import Nios2Ecos.CoveredBytes
import Nios2Ecos.SRecord
import Nios2Ecos.TextLines

/- srec2bin: the data records of a text put into a binary file that is filled first. The text
   is read twice, once to find the addresses and once to write. -/
namespace SRecordReader
open CoveredBytes SRecord

abbrev lineLen : Nat := 1024

structure Options where
  offset : Option (List Char)
  size : Option (List Char)
  fill : Option (List Char)

structure Job where
  minAddr : Nat
  maxAddr : Nat
  filler : UInt8

def main (o : Options) : Job where
  minAddr := match o.offset with
    | some s => strToUint32 s
    | none => 0
  maxAddr := match o.size with
    | some s => (strToUint32 s + (word - 1)) % word
    | none => 0
  filler := match o.fill with
    | some s => UInt8.ofNat (strToUint32 s)
    | none => 0xff

/-- A data record as `parse` finds it at the start of the buffer; the count is an int and a
    record may be too short for its own address. -/
structure DataRecord where
  addrBytes : Nat
  address : Nat
  byteCount : Int
  deriving DecidableEq

def hexAt (line : List Char) (i : Nat) : Nat := charToUint (line.getD i '\x00')

def byteAt (line : List Char) (i : Nat) : UInt8 :=
  UInt8.ofNat (hexAt line i * 16 + hexAt line (i + 1))

def recType (line : List Char) : Option Nat :=
  if line.getD 0 '\x00' = 'S' then
    let recType := (line.getD 1 '\x00').toNat - '0'.toNat
    if 1 ≤ recType ∧ recType ≤ 3 then some recType else none
  else none

def recordAt (line : List Char) (recType : Nat) : DataRecord where
  addrBytes := recType + 1
  address := (List.range ((recType + 1) * 2)).foldl
    (fun address i => (address * 16 % word + hexAt line (4 + i)) % word) 0
  byteCount := (hexAt line 2 * 16 + hexAt line 3 : Nat) - (recType + 1 + 1 : Nat)

def dataRecord (line : List Char) : Option DataRecord := (recType line).map (recordAt line)

def recordBytes (line : List Char) (r : DataRecord) : List UInt8 :=
  (List.range r.byteCount.toNat).map fun j => byteAt line (r.addrBytes * 2 + 4 + 2 * j)

/-- Writing behind the end of the file fills the gap with zeros; writing nothing does not. -/
def fwriteAt (file : List UInt8) (position : Nat) (bytes : List UInt8) : List UInt8 :=
  if bytes = [] then file
  else overwrite (file ++ List.replicate (position - file.length) 0) position bytes

structure Scan where
  min : Nat
  max : Nat
  deriving DecidableEq

def recordEnd (r : DataRecord) : Nat := ((r.address + r.byteCount) % (word : Int)).toNat

def scanLine (s : Scan) (line : List Char) : Scan :=
  match dataRecord line with
  | some r =>
    { min := if s.min > r.address then r.address else s.min
      max := if s.max < recordEnd r then recordEnd r else s.max }
  | none => s

/-- One line of the second reading. `buf` has 32 bytes: a longer record, and one whose count is
    negative, has no meaning in C. -/
def writeLine (minAddr : Nat) (file : Option (List UInt8)) (line : List Char) :
    Option (List UInt8) :=
  file.bind fun file =>
    match dataRecord line with
    | some r =>
      if 0 ≤ r.byteCount ∧ r.byteCount ≤ 32 then
        some (fwriteAt file ((r.address + (word - minAddr)) % word) (recordBytes line r))
      else none
    | none => some file

def unread (text : List Char) : TextLines.Reader := ⟨List.replicate lineLen '\x00', text, false⟩

def bounds (j : Job) (s : Scan) : Nat × Nat :=
  let low := min j.minAddr s.min
  (low, max ((s.max + (word - 1)) % word) ((low + j.maxAddr) % word))

def filled (j : Job) (low high : Nat) : List UInt8 :=
  List.replicate ((high + word - low + 1) % word) j.filler

def Job.Writes (j : Job) (text : List Char) (out : List UInt8) : Prop :=
  ∃ scanned written,
    WhileLoop.Returns TextLines.running (TextLines.turn lineLen scanLine)
      (unread text, ⟨word - 1, 0⟩) scanned ∧
    WhileLoop.Returns TextLines.running
      (TextLines.turn lineLen (writeLine (bounds j scanned.2).1))
      (unread text, some (filled j (bounds j scanned.2).1 (bounds j scanned.2).2)) written ∧
    written.2 = some out

def piece (line : List Char) : Option (Piece UInt8) :=
  (dataRecord line).map fun r => ⟨r.address, recordBytes line r⟩

/-- A data line holds all its characters and fits the buffer and the address space. -/
structure Sound (line : List Char) (r : DataRecord) : Prop where
  whole : (r.addrBytes * 2 + 4 : Nat) + 2 * r.byteCount ≤ line.length
  counted : 0 ≤ r.byteCount
  short : r.byteCount ≤ 32
  inside : r.address + r.byteCount < word

structure Readable (line : List Char) : Prop where
  fits : TextLines.Fits lineLen line
  sound : ∀ r, dataRecord (line ++ ['\n']) = some r → Sound line r

def pieces (lines : List (List Char)) : List (Piece UInt8) :=
  lines.filterMap fun line => piece (line ++ ['\n'])

theorem hexAt_append {line : List Char} {i : Nat} (inside : i < line.length) (t : List Char) :
    hexAt (line ++ t) i = hexAt line i := by
  simp [hexAt, List.getD_eq_getElem?_getD, List.getElem?_append_left inside]

theorem recType_append (line t : List Char) :
    recType (line ++ '\n' :: t) = recType (line ++ ['\n']) := by
  match line with
  | [] => rfl
  | [c] => rfl
  | c :: d :: line => rfl

theorem recordAt_append {line : List Char} {kind : Nat}
    (whole : (kind + 1) * 2 + 4 ≤ line.length) (t : List Char) :
    recordAt (line ++ t) kind = recordAt line kind := by
  have two := @hexAt_append line 2 (by omega) t
  have three := @hexAt_append line 3 (by omega) t
  have digits : (List.range ((kind + 1) * 2)).foldl
      (fun address i => (address * 16 % word + hexAt (line ++ t) (4 + i)) % word) 0 =
      (List.range ((kind + 1) * 2)).foldl
      (fun address i => (address * 16 % word + hexAt line (4 + i)) % word) 0 := by
    apply List.foldl_ext
    intro address i there
    have small := List.mem_range.mp there
    rw [@hexAt_append line (4 + i) (by omega) t]
  simp only [recordAt, two, three, digits]

theorem recordBytes_append {line : List Char} {r : DataRecord} (sound : Sound line r)
    (t : List Char) : recordBytes (line ++ t) r = recordBytes line r := by
  have whole := sound.whole
  have counted := sound.counted
  apply List.map_congr_left
  intro i there
  have small := List.mem_range.mp there
  unfold byteAt
  rw [hexAt_append (by omega), hexAt_append (by omega)]

theorem dataRecord_append {line : List Char} (readable : Readable line) (t : List Char) :
    dataRecord (line ++ '\n' :: t) = dataRecord (line ++ ['\n']) := by
  have kinds := recType_append line t
  unfold dataRecord
  cases kind : recType (line ++ ['\n']) with
  | none => rw [kinds, kind]; rfl
  | some n =>
    have found : dataRecord (line ++ ['\n']) = some (recordAt (line ++ ['\n']) n) := by
      simp [dataRecord, kind]
    have sound := readable.sound _ found
    have whole := sound.whole
    have counted := sound.counted
    have bytes : (recordAt (line ++ ['\n']) n).addrBytes = n + 1 := rfl
    rw [bytes] at whole
    have long : (n + 1) * 2 + 4 ≤ line.length := by omega
    rw [kinds, kind, Option.map_some, Option.map_some, recordAt_append long,
      recordAt_append long]

theorem scanLine_append {line : List Char} (readable : Readable line) (s : Scan)
    (t : List Char) : scanLine s (line ++ '\n' :: t) = scanLine s (line ++ ['\n']) := by
  unfold scanLine
  rw [dataRecord_append readable t]

theorem writeLine_append {line : List Char} (readable : Readable line) (low : Nat)
    (file : Option (List UInt8)) (t : List Char) :
    writeLine low file (line ++ '\n' :: t) = writeLine low file (line ++ ['\n']) := by
  unfold writeLine
  rw [dataRecord_append readable t]
  cases found : dataRecord (line ++ ['\n']) with
  | none => rfl
  | some r =>
    have sound := readable.sound r found
    simp only [recordBytes_append sound]

theorem sound_piece {line : List Char} {r : DataRecord} (sound : Sound line r) :
    (Piece.mk r.address (recordBytes line r)).stop = (r.address + r.byteCount).toNat ∧
    recordEnd r = (r.address + r.byteCount).toNat := by
  have counted := sound.counted
  have inside := sound.inside
  constructor
  · simp [Piece.stop, recordBytes]
    omega
  · unfold recordEnd
    rw [Int.emod_eq_of_lt (by omega) inside]

theorem scan_lines {lines : List (List Char)} (readable : ∀ line ∈ lines, Readable line)
    (s : Scan) : lines.foldl (fun s line => scanLine s (line ++ ['\n'])) s =
      ⟨bottom s.min (pieces lines), max s.max (top (pieces lines))⟩ := by
  induction lines generalizing s with
  | nil => simp [pieces, bottom, top]
  | cons line lines ih =>
    have rest := ih (by intro l there; exact readable l (by simp [there]))
    rw [List.foldl_cons, rest]
    cases found : dataRecord (line ++ ['\n']) with
    | none => simp [scanLine, found, pieces, piece]
    | some r =>
      have sound := (readable line (by simp)).sound r found
      obtain ⟨stop, ends⟩ := sound_piece sound
      have here : pieces (line :: lines) =
          ⟨r.address, recordBytes (line ++ ['\n']) r⟩ :: pieces lines := by
        simp [pieces, piece, found]
      rw [here, recordBytes_append sound]
      have lower : (if s.min > r.address then r.address else s.min) = min s.min r.address := by
        split <;> omega
      have higher : (if s.max < recordEnd r then recordEnd r else s.max) =
          max s.max (recordEnd r) := by
        split <;> omega
      simp only [scanLine, found, bottom, top, stop, ← ends, lower, higher, bottom_lowered,
        Nat.max_assoc]

theorem fwriteAt_inside {file bytes : List UInt8} {position : Nat}
    (inside : position + bytes.length ≤ file.length) :
    fwriteAt file position bytes = overwrite file position bytes := by
  unfold fwriteAt
  split
  · rename_i none_written
    simp [overwrite, none_written]
  · have no_gap : position - file.length = 0 := by omega
    simp [no_gap]

theorem write_lines {lines : List (List Char)} (readable : ∀ line ∈ lines, Readable line)
    {low : Nat} {file : List UInt8} (small : low < word)
    (inside : ∀ p ∈ pieces lines, low ≤ p.address ∧ p.stop ≤ low + file.length) :
    lines.foldl (fun s line => writeLine low s (line ++ ['\n'])) (some file) =
      some ((pieces lines).foldl (fun f p => overwrite f (p.address - low) p.bytes) file) := by
  induction lines generalizing file with
  | nil => rfl
  | cons line lines ih =>
    have rest := @ih (by intro l there; exact readable l (by simp [there]))
    rw [List.foldl_cons]
    cases found : dataRecord (line ++ ['\n']) with
    | none =>
      have here : pieces (line :: lines) = pieces lines := by simp [pieces, piece, found]
      rw [here] at inside ⊢
      have kept : writeLine low (some file) (line ++ ['\n']) = some file := by
        simp [writeLine, found]
      rw [kept]
      exact rest inside
    | some r =>
      have sound := (readable line (by simp)).sound r found
      have here : pieces (line :: lines) =
          ⟨r.address, recordBytes (line ++ ['\n']) r⟩ :: pieces lines := by
        simp [pieces, piece, found]
      rw [here] at inside ⊢
      have first := inside _ List.mem_cons_self
      simp only [Piece.stop] at first
      have within := sound.inside
      have counted := sound.counted
      unfold word at small within
      have offset : (r.address + (word - low)) % word = r.address - low := by
        unfold word
        omega
      have room : r.address - low + (recordBytes (line ++ ['\n']) r).length ≤ file.length := by
        omega
      have written : writeLine low (some file) (line ++ ['\n']) =
          some (overwrite file (r.address - low) (recordBytes (line ++ ['\n']) r)) := by
        simp [writeLine, found, sound.counted, sound.short, offset, fwriteAt_inside room]
      rw [written, List.foldl_cons, rest]
      intro p there
      rw [overwrite_length room]
      exact inside p (List.mem_cons_of_mem _ there)

theorem piece_mem_stop {lines : List (List Char)} (readable : ∀ line ∈ lines, Readable line)
    {p : Piece UInt8} (there : p ∈ pieces lines) : p.stop < word := by
  obtain ⟨line, listed, is_piece⟩ := List.mem_filterMap.mp there
  unfold piece at is_piece
  cases found : dataRecord (line ++ ['\n']) with
  | none => simp [found] at is_piece
  | some r =>
    have sound := (readable line listed).sound r found
    have inside := sound.inside
    have counted := sound.counted
    simp only [found, Option.map_some, Option.some.injEq] at is_piece
    rw [← is_piece, recordBytes_append sound, (sound_piece sound).1]
    omega

/-- The last line counts twice, which its piece does not show. -/
theorem pieces_handled (first : List Char) (lines : List (List Char)) :
    ∃ again, pieces (first :: TextLines.handled first lines) = pieces (first :: lines) ++ again ∧
      (∀ p ∈ again, p ∈ pieces (first :: lines)) ∧
      ∀ a, image (pieces (first :: lines) ++ again) a = image (pieces (first :: lines)) a := by
  induction lines generalizing first with
  | nil =>
    cases found : piece (first ++ ['\n']) with
    | none => exact ⟨[], by simp [pieces, TextLines.handled, found], by simp, by simp⟩
    | some p =>
      refine ⟨[p], by simp [pieces, TextLines.handled, found], ?_, ?_⟩
      · intro q there
        simpa [pieces, found] using there
      · intro a
        have twice := image_repeated [] p a
        simpa [pieces, found] using twice
  | cons line lines ih =>
    obtain ⟨again, split, known, same⟩ := ih line
    have front : ∀ ls, pieces (first :: ls) =
        (piece (first ++ ['\n'])).toList ++ pieces ls := by
      intro ls
      cases found : piece (first ++ ['\n']) <;> simp [pieces, found]
    refine ⟨again, ?_, ?_, ?_⟩
    · rw [TextLines.handled, front, split, front (line :: lines), List.append_assoc]
    · intro p there
      rw [front]
      exact List.mem_append_right _ (known p there)
    · intro a
      rw [front, List.append_assoc, image_append _ (pieces (line :: lines) ++ again), same a,
        image_append]

/-- What the output of `process` is for pieces of data: its first address, its length and the
    bytes. -/
def outLow (j : Job) (ps : List (Piece UInt8)) : Nat := min j.minAddr (bottom (word - 1) ps)

def outHigh (j : Job) (ps : List (Piece UInt8)) : Nat :=
  max (top ps - 1) ((outLow j ps + j.maxAddr) % word)

def output (j : Job) (ps : List (Piece UInt8)) : List UInt8 :=
  (List.range (outHigh j ps + 1 - outLow j ps)).map fun i =>
    (image ps (outLow j ps + i)).getD j.filler

theorem output_length (j : Job) (ps : List (Piece UInt8)) :
    (output j ps).length = outHigh j ps + 1 - outLow j ps := by
  simp [output]

theorem piece_between (j : Job) {ps : List (Piece UInt8)} {p : Piece UInt8} (there : p ∈ ps) :
    outLow j ps ≤ p.address ∧ p.stop ≤ outHigh j ps + 1 := by
  have low := bottom_le (word - 1) there
  have high := stop_le_top there
  have under : outLow j ps ≤ bottom (word - 1) ps := Nat.min_le_right _ _
  have above : top ps - 1 ≤ outHigh j ps := Nat.le_max_left _ _
  omega

theorem low_le_high (j : Job) {ps : List (Piece UInt8)} (data : 0 < top ps) :
    outLow j ps ≤ outHigh j ps + 1 := by
  cases ps with
  | nil => simp [top] at data
  | cons p ps =>
    obtain ⟨low, high⟩ := piece_between j (List.mem_cons_self : p ∈ p :: ps)
    unfold Piece.stop at high
    omega

theorem written_output {j : Job} {ps again : List (Piece UInt8)} (data : 0 < top ps)
    (known : ∀ p ∈ ps ++ again, p ∈ ps) (same : ∀ a, image (ps ++ again) a = image ps a) :
    (ps ++ again).foldl (fun f p => overwrite f (p.address - outLow j ps) p.bytes)
        (List.replicate (outHigh j ps + 1 - outLow j ps) j.filler) = output j ps := by
  have order := low_le_high j data
  have inside : ∀ p ∈ ps ++ again, outLow j ps ≤ p.address ∧ p.stop ≤ outLow j ps +
      (List.replicate (outHigh j ps + 1 - outLow j ps) j.filler).length := by
    intro p there
    obtain ⟨low, high⟩ := piece_between j (known p there)
    rw [List.length_replicate]
    omega
  apply List.ext_getElem?
  intro i
  rw [overwrites_get inside, same, output, List.getElem?_map]
  rcases Nat.lt_or_ge i (outHigh j ps + 1 - outLow j ps) with within | beyond
  · rw [List.getElem?_replicate_of_lt within, List.getElem?_range within]
    cases found : image ps (outLow j ps + i) <;> simp [found]
  · have nothing : image ps (outLow j ps + i) = none := by
      apply Option.eq_none_iff_forall_ne_some.mpr
      intro b there
      obtain ⟨p, listed, covers⟩ := image_some there
      have high := (piece_between j listed).2
      have before := (byte_some covers).2
      omega
    rw [nothing, List.getElem?_eq_none (by simpa using beyond),
      List.getElem?_eq_none (by simpa using beyond)]
    rfl

theorem bounds_found {j : Job} {ps again : List (Piece UInt8)} (data : 0 < top ps)
    (stops : top ps < word) (known : ∀ p ∈ ps ++ again, p ∈ ps) :
    bounds j ⟨bottom (word - 1) (ps ++ again), max 0 (top (ps ++ again))⟩ =
      (outLow j ps, outHigh j ps) := by
  have part : ∀ p ∈ ps, p ∈ ps ++ again := by
    intro p there
    exact List.mem_append_left _ there
  have lowest : bottom (word - 1) (ps ++ again) = bottom (word - 1) ps :=
    Nat.le_antisymm (bottom_same part) (bottom_same known)
  have highest : top (ps ++ again) = top ps :=
    Nat.le_antisymm (top_same known) (top_same part)
  have wrapped : (top ps + (word - 1)) % word = top ps - 1 := by
    unfold word at stops ⊢
    omega
  simp [bounds, outLow, outHigh, lowest, highest, wrapped]

structure Job.Valid (j : Job) : Prop where
  low : j.minAddr < word
  high : j.maxAddr < word

theorem main_valid (o : Options) : (main o).Valid := by
  constructor
  · unfold main
    dsimp only
    split
    · exact strToUint32_lt _
    · decide
  · unfold main
    dsimp only
    split
    · exact Nat.mod_lt _ (by decide)
    · decide

theorem filled_length {j : Job} {ps : List (Piece UInt8)} (data : 0 < top ps)
    (sized : outHigh j ps + 1 - outLow j ps < word) :
    filled j (outLow j ps) (outHigh j ps) =
      List.replicate (outHigh j ps + 1 - outLow j ps) j.filler := by
  have order := low_le_high j data
  have length : (outHigh j ps + word - outLow j ps + 1) % word =
      outHigh j ps + 1 - outLow j ps := by
    unfold word at sized ⊢
    omega
  rw [filled, length]

theorem writes_output {j : Job} {lines : List (List Char)} (valid : j.Valid)
    (readable : ∀ line ∈ lines, Readable line) (data : 0 < top (pieces lines))
    (sized : outHigh j (pieces lines) + 1 - outLow j (pieces lines) < word) :
    j.Writes (TextLines.text lines) (output j (pieces lines)) := by
  cases lines with
  | nil => simp [pieces, top] at data
  | cons first lines =>
    obtain ⟨again, split, known_again, same⟩ := pieces_handled first lines
    have known : ∀ p ∈ pieces (first :: lines) ++ again, p ∈ pieces (first :: lines) := by
      intro p there
      rcases List.mem_append.mp there with old | new
      · exact old
      · exact known_again p new
    have stops : top (pieces (first :: lines)) ≤ word - 1 := by
      apply top_le
      intro p there
      have := piece_mem_stop readable there
      omega
    have all_readable : ∀ line ∈ first :: TextLines.handled first lines, Readable line := by
      intro line there
      rcases List.mem_cons.mp there with same | later
      · exact readable line (by simp [same])
      · exact readable line (TextLines.handled_mem later)
    have fits : ∀ line ∈ first :: lines, TextLines.Fits lineLen line := by
      intro line there
      exact (readable line there).fits
    -- the first reading
    obtain ⟨left, scanned⟩ := TextLines.first_lines_handled (by decide) fits
      (fun s line => scanLine s (line ++ ['\n']))
      (by intro line there s behind; exact scanLine_append (readable line there) s _)
      (List.replicate lineLen '\x00') ⟨word - 1, 0⟩
    have data_bound : top (pieces (first :: lines)) < word := by
      unfold word at stops ⊢
      omega
    have found := bounds_found (j := j) data data_bound known
    rw [scan_lines all_readable, split] at scanned
    -- the second, with the bounds of the first
    obtain ⟨left', written⟩ := TextLines.first_lines_handled (by decide) fits
      (fun s line => writeLine (outLow j (pieces (first :: lines))) s (line ++ ['\n']))
      (by intro line there s behind; exact writeLine_append (readable line there) _ s _)
      (List.replicate lineLen '\x00')
      (some (filled j (outLow j (pieces (first :: lines)))
        (outHigh j (pieces (first :: lines)))))
    have small : outLow j (pieces (first :: lines)) < word :=
      Nat.lt_of_le_of_lt (Nat.min_le_left _ _) valid.low
    have order := low_le_high j data
    have inside : ∀ p ∈ pieces (first :: TextLines.handled first lines),
        outLow j (pieces (first :: lines)) ≤ p.address ∧
        p.stop ≤ outLow j (pieces (first :: lines)) +
          (filled j (outLow j (pieces (first :: lines)))
            (outHigh j (pieces (first :: lines)))).length := by
      intro p there
      rw [split] at there
      obtain ⟨low, high⟩ := piece_between j (known p there)
      rw [filled_length data sized, List.length_replicate]
      omega
    rw [write_lines all_readable small inside, split, filled_length data sized,
      written_output data known same] at written
    refine ⟨_, (⟨left', [], true⟩, some (output j (pieces (first :: lines)))), scanned, ?_, rfl⟩
    simp only [found]
    rw [filled_length data sized]
    exact written

/-- What srec2bin has written, byte by byte: at each address between the first and the last the
    byte of the last record that covers it, and the filler where there is none. -/
theorem srec2bin_image {o : Options} {lines : List (List Char)}
    (readable : ∀ line ∈ lines, Readable line) (data : 0 < top (pieces lines))
    (sized : outHigh (main o) (pieces lines) + 1 - outLow (main o) (pieces lines) < word) :
    ∃ out, (main o).Writes (TextLines.text lines) out ∧
      out.length = outHigh (main o) (pieces lines) + 1 - outLow (main o) (pieces lines) ∧
      ∀ a, outLow (main o) (pieces lines) ≤ a → a ≤ outHigh (main o) (pieces lines) →
        out[a - outLow (main o) (pieces lines)]? =
          some ((image (pieces lines) a).getD (main o).filler) := by
  refine ⟨_, writes_output (main_valid o) readable data sized, output_length _ _, ?_⟩
  intro a low high
  have inside : a - outLow (main o) (pieces lines) <
      outHigh (main o) (pieces lines) + 1 - outLow (main o) (pieces lines) := by omega
  have back : outLow (main o) (pieces lines) + (a - outLow (main o) (pieces lines)) = a := by
    omega
  rw [output, List.getElem?_map, List.getElem?_range inside, Option.map_some, back]

def overlapping : List (List Char) :=
  ["S1050002AABB93".toList, "S1040003CC2C".toList]

theorem overlapping_readable : ∀ line ∈ overlapping, Readable line := by
  have first : dataRecord ("S1050002AABB93".toList ++ ['\n']) = some ⟨2, 2, 2⟩ := by decide
  have second : dataRecord ("S1040003CC2C".toList ++ ['\n']) = some ⟨2, 3, 1⟩ := by decide
  intro line there
  simp only [overlapping, List.mem_cons, List.not_mem_nil, or_false] at there
  rcases there with same | same
  · subst same
    refine ⟨⟨by decide, by decide⟩, ?_⟩
    intro r found
    cases first.symm.trans found
    exact ⟨by decide, by decide, by decide, by decide⟩
  · subst same
    refine ⟨⟨by decide, by decide⟩, ?_⟩
    intro r found
    cases second.symm.trans found
    exact ⟨by decide, by decide, by decide, by decide⟩

theorem overlapping_image : ∃ out,
    (main ⟨none, none, none⟩).Writes (TextLines.text overlapping) out ∧
      out.length = outHigh (main ⟨none, none, none⟩) (pieces overlapping) + 1 -
        outLow (main ⟨none, none, none⟩) (pieces overlapping) ∧
      ∀ a, outLow (main ⟨none, none, none⟩) (pieces overlapping) ≤ a →
        a ≤ outHigh (main ⟨none, none, none⟩) (pieces overlapping) →
        out[a - outLow (main ⟨none, none, none⟩) (pieces overlapping)]? =
          some ((image (pieces overlapping) a).getD (main ⟨none, none, none⟩).filler) :=
  srec2bin_image overlapping_readable (by decide) (by decide)

end SRecordReader
