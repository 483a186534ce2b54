import Mathlib.Data.List.Basic
import Mathlib.Algebra.Order.Ring.Nat
import Nios2Ecos.CoveredBytes
import Nios2Ecos.SRecord
import Nios2Ecos.SRecordReader
import Nios2Ecos.TextLines

/- What bin2srec prints is read back: the lines are well-formed S-records, and srec2bin turns
   them into the window of the file they were made from. -/
namespace SRecordRoundTrip
open CoveredBytes SRecord

def hexDigit (d : Nat) : Char := (Nat.digitChar d).toUpper

def hexPair (b : Nat) : List Char := [hexDigit (b / 16), hexDigit (b % 16)]

theorem printfHex_byte : ∀ b < 256, printfHex 2 b = hexPair b := by
  decide +kernel

theorem charToUint_hexDigit : ∀ d < 16, charToUint (hexDigit d) = d := by
  decide +kernel

theorem hexDigit_plain : ∀ d < 16, hexDigit d ≠ '\n' := by
  decide +kernel

theorem hexPairs_length (bs : List Nat) : (bs.flatMap hexPair).length = 2 * bs.length := by
  induction bs with
  | nil => rfl
  | cons b bs ih =>
    simp only [List.flatMap_cons, List.length_append, ih, List.length_cons, hexPair,
      List.length_nil]
    omega

theorem hexPairs_plain {bs : List Nat} (bytes : ∀ b ∈ bs, b < 256) :
    '\n' ∉ bs.flatMap hexPair := by
  intro there
  obtain ⟨b, listed, digit⟩ := List.mem_flatMap.mp there
  have small := bytes b listed
  have high := hexDigit_plain (b / 16) (by omega)
  have low := hexDigit_plain (b % 16) (by omega)
  simp only [hexPair, List.mem_cons, List.not_mem_nil, or_false] at digit
  rcases digit with same | same
  · exact high same.symm
  · exact low same.symm

def hexLine (kind : Nat) (bs : List Nat) : List Char :=
  'S' :: Nat.digitChar kind :: bs.flatMap hexPair

theorem hexAt_line {kind : Nat} {bs : List Nat} (bytes : ∀ b ∈ bs, b < 256) {i : Nat}
    {t : List Char} (inside : i < bs.length) :
    SRecordReader.hexAt (hexLine kind bs ++ t) (2 * i + 2) = bs[i] / 16 ∧
    SRecordReader.hexAt (hexLine kind bs ++ t) (2 * i + 3) = bs[i] % 16 := by
  unfold hexLine
  have general : ∀ (bs : List Nat) (i : Nat), (∀ b ∈ bs, b < 256) → ∀ inside : i < bs.length,
      charToUint ((bs.flatMap hexPair ++ t).getD (2 * i) '\x00') = bs[i] / 16 ∧
      charToUint ((bs.flatMap hexPair ++ t).getD (2 * i + 1) '\x00') = bs[i] % 16 := by
    intro bs
    induction bs with
    | nil =>
      intro i small inside
      simp at inside
    | cons b bs ih =>
      intro i small inside
      have here := small b (by simp)
      cases i with
      | zero =>
        have high := charToUint_hexDigit (b / 16) (by omega)
        have low := charToUint_hexDigit (b % 16) (by omega)
        simp [hexPair, high, low]
      | succ i =>
        have rest := ih i (by intro c later; exact small c (by simp [later]))
          (by simpa using inside)
        have shift : 2 * (i + 1) = 2 * i + 1 + 1 := by omega
        simpa [hexPair, shift] using rest
  have shown := general bs i bytes inside
  simpa [SRecordReader.hexAt] using shown

def recordLine (addrBytes address : Nat) (data : List UInt8) : List Nat :=
  let bytes := addressBytes addrBytes address ++ data.map UInt8.toNat
  (addrBytes + data.length + 1) :: (bytes ++ [255 - summed bytes (addrBytes + data.length + 1)])

theorem addressBytes_length (addrBytes address : Nat) :
    (addressBytes addrBytes address).length = addrBytes := by
  simp [addressBytes]

theorem printed_bytes (addrBytes address : Nat) (data : List UInt8) :
    ∀ b ∈ addressBytes addrBytes address ++ data.map UInt8.toNat, b < 256 := by
  intro b there
  rcases List.mem_append.mp there with low | high
  · obtain ⟨i, _, same⟩ := List.mem_map.mp low
    rw [← same]
    exact Nat.mod_lt _ (by decide)
  · obtain ⟨c, _, same⟩ := List.mem_map.mp high
    rw [← same]
    exact c.toNat_lt

theorem recordLine_bytes {addrBytes address : Nat} {data : List UInt8}
    (short : addrBytes + data.length + 1 < 256) :
    ∀ b ∈ recordLine addrBytes address data, b < 256 := by
  intro b there
  rcases List.mem_cons.mp there with count | later
  · omega
  · rcases List.mem_append.mp later with printed | check
    · exact printed_bytes addrBytes address data b printed
    · rw [List.mem_singleton.mp check]
      omega

theorem printRecord_line {kind addrBytes address : Nat} {data : List UInt8} (digit : kind < 10)
    (short : addrBytes + data.length + 1 < 256) :
    printRecord kind addrBytes address data =
      hexLine kind (recordLine addrBytes address data) := by
  have pairs : ∀ bs : List Nat, (∀ b ∈ bs, b < 256) →
      bs.flatMap (printfHex 2) = bs.flatMap hexPair := by
    intro bs small
    induction bs with
    | nil => rfl
    | cons b bs ih =>
      rw [List.flatMap_cons, List.flatMap_cons, printfHex_byte b (small b (by simp)),
        ih (by intro c later; exact small c (by simp [later]))]
  have bytes := printed_bytes addrBytes address data
  have check : 255 - summed (addressBytes addrBytes address ++ data.map UInt8.toNat)
      (addrBytes + data.length + 1) < 256 := by omega
  simp only [printRecord, hexLine, recordLine, Nat.toDigits_of_lt_base digit, pairs _ bytes,
    printfHex_byte _ short, printfHex_byte _ check]
  simp

theorem recordLine_length (addrBytes address : Nat) (data : List UInt8) :
    (recordLine addrBytes address data).length = addrBytes + data.length + 2 := by
  simp [recordLine, addressBytes_length]
  omega

theorem recordLine_data {addrBytes address : Nat} {data : List UInt8} {j : Nat}
    (inside : j < data.length)
    (listed : addrBytes + 1 + j < (recordLine addrBytes address data).length) :
    (recordLine addrBytes address data)[addrBytes + 1 + j] = data[j].toNat := by
  have front := addressBytes_length addrBytes address
  have shift : addrBytes + 1 + j = (addrBytes + j) + 1 := by omega
  simp only [recordLine, shift, List.getElem_cons_succ]
  rw [List.getElem_append_left (by simp [front]; omega),
    List.getElem_append_right (by omega)]
  simp [front]

theorem recordLine_address {addrBytes address : Nat} {data : List UInt8} {i : Nat}
    (inside : i < addrBytes) (listed : i + 1 < (recordLine addrBytes address data).length) :
    (recordLine addrBytes address data)[i + 1] =
      (address >>> (8 * (addrBytes - 1 - i))) % 256 := by
  have front := addressBytes_length addrBytes address
  simp only [recordLine, List.getElem_cons_succ]
  rw [List.getElem_append_left (by simp [front]; omega),
    List.getElem_append_left (by omega)]
  simp [addressBytes]

theorem recordAt_address {kind address : Nat} {data : List UInt8} {t : List Char}
    (least : 1 ≤ kind) (most : kind ≤ 3) (short : kind + 1 + data.length + 1 < 256)
    (small : address < 256 ^ (kind + 1)) :
    (SRecordReader.recordAt (hexLine kind (recordLine (kind + 1) address data) ++ t)
      kind).address = address := by
  have bytes := @recordLine_bytes (kind + 1) address data short
  have length := recordLine_length (kind + 1) address data
  have digits : ∀ i, i < kind + 1 →
      SRecordReader.hexAt (hexLine kind (recordLine (kind + 1) address data) ++ t)
        (4 + 2 * i) = (address >>> (8 * (kind - i))) % 256 / 16 ∧
      SRecordReader.hexAt (hexLine kind (recordLine (kind + 1) address data) ++ t)
        (4 + (2 * i + 1)) = (address >>> (8 * (kind - i))) % 256 % 16 := by
    intro i inside
    have pair := @hexAt_line kind _ bytes (i + 1) t (by omega)
    rw [recordLine_address inside] at pair
    have first : 2 * (i + 1) + 2 = 4 + 2 * i := by omega
    have second : 2 * (i + 1) + 3 = 4 + (2 * i + 1) := by omega
    rw [first, second] at pair
    exact pair
  have zero := digits 0 (by omega)
  have one := digits 1 (by omega)
  obtain rfl | rfl | rfl : kind = 1 ∨ kind = 2 ∨ kind = 3 := by omega
  · simp [SRecordReader.recordAt, List.range_succ, zero, one, word,
      Nat.shiftRight_eq_div_pow]
    omega
  · have two := digits 2 (by omega)
    simp [SRecordReader.recordAt, List.range_succ, zero, one, two, word,
      Nat.shiftRight_eq_div_pow]
    omega
  · have two := digits 2 (by omega)
    have three := digits 3 (by omega)
    simp [SRecordReader.recordAt, List.range_succ, zero, one, two, three, word,
      Nat.shiftRight_eq_div_pow]
    omega

theorem recType_line {kind : Nat} (digit : kind < 10) (bs : List Nat) (t : List Char) :
    SRecordReader.recType (hexLine kind bs ++ t) =
      if 1 ≤ kind ∧ kind ≤ 3 then some kind else none := by
  have value : ∀ d < 10, (Nat.digitChar d).toNat - '0'.toNat = d := by decide +kernel
  have first : (hexLine kind bs ++ t).getD 0 '\x00' = 'S' := rfl
  have second : (hexLine kind bs ++ t).getD 1 '\x00' = Nat.digitChar kind := rfl
  simp only [SRecordReader.recType, first, second, value kind digit, if_true]

section
variable {kind address : Nat} {data : List UInt8}

theorem recordAt_count {t : List Char} (short : kind + 1 + data.length + 1 < 256) :
    (SRecordReader.recordAt (hexLine kind (recordLine (kind + 1) address data) ++ t)
      kind).byteCount = data.length := by
  have bytes := @recordLine_bytes (kind + 1) address data short
  have length := recordLine_length (kind + 1) address data
  have pair := @hexAt_line kind _ bytes 0 t (by omega)
  have head : (recordLine (kind + 1) address data)[0] = kind + 1 + data.length + 1 := rfl
  rw [head] at pair
  simp only [SRecordReader.recordAt, pair.1, pair.2]
  omega

theorem recordAt_data {t : List Char} (short : kind + 1 + data.length + 1 < 256) :
    SRecordReader.recordBytes (hexLine kind (recordLine (kind + 1) address data) ++ t)
      (SRecordReader.recordAt (hexLine kind (recordLine (kind + 1) address data) ++ t) kind) =
      data := by
  have bytes := @recordLine_bytes (kind + 1) address data short
  have length := recordLine_length (kind + 1) address data
  have count := @recordAt_count kind address data t short
  have same_size : (SRecordReader.recordBytes
      (hexLine kind (recordLine (kind + 1) address data) ++ t)
      (SRecordReader.recordAt (hexLine kind (recordLine (kind + 1) address data) ++ t)
        kind)).length = data.length := by
    simp [SRecordReader.recordBytes, count]
  apply List.ext_getElem same_size
  intro j listed inside
  have pair := @hexAt_line kind _ bytes (kind + 1 + 1 + j) t (by omega)
  rw [recordLine_data inside] at pair
  have first : 2 * (kind + 1 + 1 + j) + 2 = (kind + 1) * 2 + 4 + 2 * j := by omega
  have second : 2 * (kind + 1 + 1 + j) + 3 = (kind + 1) * 2 + 4 + 2 * j + 1 := by omega
  rw [first, second] at pair
  have width : (SRecordReader.recordAt (hexLine kind (recordLine (kind + 1) address data) ++ t)
      kind).addrBytes = kind + 1 := rfl
  simp only [SRecordReader.recordBytes, List.getElem_map, List.getElem_range,
    SRecordReader.byteAt, width, pair.1, pair.2]
  have whole : data[j].toNat / 16 * 16 + data[j].toNat % 16 = data[j].toNat := by omega
  rw [whole]
  exact UInt8.ofNat_toNat

/-- A printed data record is a sound line and means its piece. -/
theorem dataRecord_line {t : List Char} (least : 1 ≤ kind) (most : kind ≤ 3)
    (short : data.length ≤ 32) (small : address < 256 ^ (kind + 1)) :
    SRecordReader.dataRecord (hexLine kind (recordLine (kind + 1) address data) ++ t) =
      some ⟨kind + 1, address, data.length⟩ := by
  have count := @recordAt_count kind address data t (by omega)
  have found := @recordAt_address kind address data t least most (by omega) small
  have digit : kind < 10 := by omega
  simp only [SRecordReader.dataRecord, recType_line digit, least, most, and_self, if_true,
    Option.map_some, Option.some.injEq]
  simp only [SRecordReader.recordAt] at count found ⊢
  rw [count, found]

theorem hexLine_length (bs : List Nat) : (hexLine kind bs).length = 2 * bs.length + 2 := by
  simp only [hexLine, List.length_cons, hexPairs_length]

theorem hexLine_fits {bs : List Nat} (digit : kind < 10) (bytes : ∀ b ∈ bs, b < 256)
    (short : bs.length < 256) : TextLines.Fits SRecordReader.lineLen (hexLine kind bs) := by
  have plain : ∀ d < 10, Nat.digitChar d ≠ '\n' := by decide +kernel
  constructor
  · intro there
    rcases List.mem_cons.mp there with head | later
    · exact absurd head (by decide)
    · rcases List.mem_cons.mp later with second | pairs
      · exact plain kind digit second.symm
      · exact hexPairs_plain bytes pairs
  · rw [hexLine_length]
    unfold SRecordReader.lineLen
    omega

theorem data_readable (least : 1 ≤ kind) (most : kind ≤ 3) (short : data.length ≤ 32)
    (small : address < 256 ^ (kind + 1)) (inside : address + data.length < word) :
    SRecordReader.Readable (hexLine kind (recordLine (kind + 1) address data)) := by
  have length := recordLine_length (kind + 1) address data
  constructor
  · exact hexLine_fits (by omega) (recordLine_bytes (by omega)) (by omega)
  · intro r found
    rw [dataRecord_line least most short small] at found
    cases found
    constructor
    · rw [hexLine_length, length]
      dsimp only
      omega
    · dsimp only
      omega
    · dsimp only
      omega
    · dsimp only
      omega

theorem data_piece (least : 1 ≤ kind) (most : kind ≤ 3) (short : data.length ≤ 32)
    (small : address < 256 ^ (kind + 1)) :
    SRecordReader.piece (hexLine kind (recordLine (kind + 1) address data) ++ ['\n']) =
      some ⟨address, data⟩ := by
  have record := @dataRecord_line kind address data ['\n'] least most short small
  have bytes := @recordAt_data kind address data ['\n'] (by omega)
  have digit : kind < 10 := by omega
  have unfolded : SRecordReader.dataRecord
      (hexLine kind (recordLine (kind + 1) address data) ++ ['\n']) =
      some (SRecordReader.recordAt
        (hexLine kind (recordLine (kind + 1) address data) ++ ['\n']) kind) := by
    simp [SRecordReader.dataRecord, recType_line digit, least, most]
  have same := Option.some.inj (unfolded.symm.trans record)
  rw [same] at bytes
  simp only [SRecordReader.piece, record, Option.map_some, bytes]

end

theorem header_line : headerRecord = hexLine 0 [6, 0, 0, 0x48, 0x44, 0x52, 0x1B] := by
  decide +kernel

theorem toDigits_hex (n : Nat) :
    ∀ c ∈ (Nat.toDigits 16 n).map Char.toUpper, ∃ d < 16, c = hexDigit d := by
  induction n using Nat.strongRecOn with
  | ind n ih =>
    intro c there
    by_cases small : n < 16
    · rw [Nat.toDigits_of_lt_base small] at there
      exact ⟨n, small, by simpa [hexDigit] using there⟩
    · rw [Nat.toDigits_of_base_le (by decide) (by omega), List.map_append,
        List.mem_append] at there
      rcases there with front | last
      · exact ih (n / 16) (by omega) c front
      · exact ⟨n % 16, by omega, by simpa [hexDigit] using last⟩

theorem printfHex_hex (width n : Nat) : ∀ c ∈ printfHex width n, ∃ d < 16, c = hexDigit d := by
  intro c there
  rcases List.mem_append.mp there with padding | digits
  · exact ⟨0, by decide, by rw [List.eq_of_mem_replicate padding]; rfl⟩
  · exact toDigits_hex n c digits

theorem printfHex_length {width n : Nat} (positive : 0 < width) (fits : n < 16 ^ width) :
    (printfHex width n).length = width := by
  have digits := (Nat.length_toDigits_le_iff (by decide) positive).mpr fits
  simp only [printfHex, List.length_append, List.length_replicate, List.length_map]
  omega

theorem count_readable {n : Nat} (small : n < 16 ^ 8) :
    SRecordReader.Readable (countRecord n) := by
  have digits := (Nat.length_toDigits_le_iff (by decide) (by decide)).mpr small
  constructor
  · constructor
    · intro there
      have from_digits : ∀ width value, '\n' ∉ printfHex width value := by
        intro width value listed
        obtain ⟨d, low, same⟩ := printfHex_hex width value '\n' listed
        exact hexDigit_plain d low same.symm
      rcases List.mem_append.mp there with front | check
      · rcases List.mem_append.mp front with fixed | digits
        · exact absurd fixed (by decide)
        · exact from_digits _ _ digits
      · exact from_digits _ _ check
    · have check := @printfHex_length 2 (255 - (3 + n % 256 + (n >>> 8) % 256) % 256)
        (by decide) (by omega)
      have number : (printfHex 4 n).length ≤ 12 := by
        simp only [printfHex, List.length_append, List.length_replicate, List.length_map]
        omega
      simp only [countRecord, List.length_append, check, List.length_cons, List.length_nil,
        SRecordReader.lineLen]
      omega
  · intro r found
    simp [SRecordReader.dataRecord, SRecordReader.recType, countRecord] at found

theorem count_piece (n : Nat) : SRecordReader.piece (countRecord n ++ ['\n']) = none := by
  simp [SRecordReader.piece, SRecordReader.dataRecord, SRecordReader.recType, countRecord]

theorem other_piece {kind : Nat} (digit : kind < 10) (other : ¬ (1 ≤ kind ∧ kind ≤ 3))
    (bs : List Nat) : SRecordReader.piece (hexLine kind bs ++ ['\n']) = none := by
  simp only [SRecordReader.piece, SRecordReader.dataRecord, recType_line digit, other,
    if_false, Option.map_none]

theorem other_readable {kind : Nat} {bs : List Nat} (digit : kind < 10)
    (other : ¬ (1 ≤ kind ∧ kind ≤ 3)) (bytes : ∀ b ∈ bs, b < 256) (short : bs.length < 256) :
    SRecordReader.Readable (hexLine kind bs) := by
  constructor
  · exact hexLine_fits digit bytes short
  · intro r found
    simp only [SRecordReader.dataRecord, recType_line digit, other, if_false,
      Option.map_none] at found
    cases found

section
variable {j : Job} {file : List UInt8} (valid : j.Valid file) (ends : j.Ends)
include valid

theorem raised_bounds : 2 ≤ j.raised ∧ j.raised ≤ 4 ∧ j.maxAddr < 256 ^ j.raised := by
  have least := valid.least
  have most := valid.most
  have small : j.maxAddr < word := Nat.mod_lt _ (by decide)
  unfold word at small
  have sizes : ∀ n, 2 ≤ n → n ≤ 4 → (j.maxAddr > 0xffff → 3 ≤ n) →
      (j.maxAddr > 0xffffff → 4 ≤ n) → j.maxAddr < 256 ^ n := by
    intro n low high three four
    obtain rfl | rfl | rfl : n = 2 ∨ n = 3 ∨ n = 4 := by omega
    · omega
    · omega
    · omega
  have raised : 2 ≤ j.raised ∧ j.raised ≤ 4 ∧ (j.maxAddr > 0xffff → 3 ≤ j.raised) ∧
      (j.maxAddr > 0xffffff → 4 ≤ j.raised) := by
    unfold Job.raised
    split <;> dsimp only <;> split <;> omega
  obtain ⟨low, high, three, four⟩ := raised
  exact ⟨low, high, sizes _ low high three four⟩

include ends

theorem piece_bounds {p : Piece UInt8} (there : p ∈ j.pieces file) :
    p.bytes.length ≤ 32 ∧ p.address < 256 ^ j.raised ∧ p.address + p.bytes.length < word := by
  obtain ⟨_, short, within⟩ := cut_mem there
  have long := valid.long
  have some_bytes := valid.short
  have last := maxAddr_eq valid ends
  have tight := records_tight j
  have bound := (raised_bounds valid).2.2
  unfold Job.Ends at ends
  have below : p.address ≤ j.maxAddr := by omega
  exact ⟨by omega, Nat.lt_of_le_of_lt below bound, by omega⟩

theorem line_readable {p : Piece UInt8} (there : p ∈ j.pieces file) :
    SRecordReader.Readable (j.line p) ∧
    SRecordReader.piece (j.line p ++ ['\n']) = some p := by
  obtain ⟨least, most, _⟩ := raised_bounds valid
  obtain ⟨short, small, inside⟩ := piece_bounds valid ends there
  obtain ⟨kind, same⟩ : ∃ kind, j.raised = kind + 1 := ⟨j.raised - 1, by omega⟩
  rw [same] at small least most
  have printed : j.line p = hexLine kind (recordLine (kind + 1) p.address p.bytes) := by
    unfold Job.line
    rw [same, Nat.add_sub_cancel]
    exact printRecord_line (by omega) (by omega)
  rw [printed]
  exact ⟨data_readable (by omega) (by omega) short small inside,
    data_piece (by omega) (by omega) short small⟩

end

section
variable {j : Job} {file : List UInt8} (valid : j.Valid file) (ends : j.Ends)
include valid ends

theorem lines_readable : ∀ line ∈ j.lines file, SRecordReader.Readable line := by
  intro line there
  obtain ⟨least, most, _⟩ := raised_bounds valid
  have tight := records_tight j
  have bound := valid.last
  have some_bytes := valid.short
  have listed : line ∈ (j.pieces file).map j.line ∨ line = headerRecord ∨
      line = countRecord j.records ∨
      line = printRecord (11 - j.raised) j.raised j.addrOffset [] := by
    unfold Job.lines at there
    cases headers : j.doHeaders with
    | false =>
      left
      simpa [headers] using there
    | true =>
      simp only [headers, if_true, List.mem_append, List.mem_cons, List.not_mem_nil,
        or_false] at there
      rcases there with (head | data) | count | last
      · exact Or.inr (Or.inl head)
      · exact Or.inl data
      · exact Or.inr (Or.inr (Or.inl count))
      · exact Or.inr (Or.inr (Or.inr last))
  rcases listed with data | head | count | last
  · obtain ⟨p, piece, same⟩ := List.mem_map.mp data
    rw [← same]
    exact (line_readable valid ends piece).1
  · rw [head, header_line]
    exact other_readable (by decide) (by decide) (by decide) (by decide)
  · rw [count]
    have few : j.records * 8 ≤ j.records * j.lineLength := Nat.mul_le_mul_left _ some_bytes
    have long := valid.long
    unfold word at bound
    exact count_readable (by omega)
  · rw [last, printRecord_line (by omega) (by simp; omega)]
    have size := recordLine_length j.raised j.addrOffset []
    exact other_readable (by omega) (by omega)
      (recordLine_bytes (by simp; omega)) (by rw [size]; simp; omega)

theorem lines_pieces : SRecordReader.pieces (j.lines file) = j.pieces file := by
  obtain ⟨least, most, _⟩ := raised_bounds valid
  have data : ∀ ps : List (Piece UInt8), (∀ p ∈ ps, p ∈ j.pieces file) →
      SRecordReader.pieces (ps.map j.line) = ps := by
    intro ps known
    induction ps with
    | nil => rfl
    | cons p ps ih =>
      have here := (line_readable valid ends (known p (by simp))).2
      have rest := ih (by intro q later; exact known q (by simp [later]))
      simp only [SRecordReader.pieces] at rest ⊢
      simp only [List.map_cons, List.filterMap_cons, here, rest]
  have all := data (j.pieces file) (by intro p there; exact there)
  unfold Job.lines
  cases headers : j.doHeaders with
  | false => simpa [headers] using all
  | true =>
    have head : SRecordReader.piece (headerRecord ++ ['\n']) = none := by
      rw [header_line]
      exact other_piece (by decide) (by decide) _
    have count := count_piece j.records
    have last : SRecordReader.piece
        (printRecord (11 - j.raised) j.raised j.addrOffset [] ++ ['\n']) = none := by
      rw [printRecord_line (by omega) (by simp; omega)]
      exact other_piece (by omega) (by omega) _
    simp only [SRecordReader.pieces] at all ⊢
    simp [head, count, last, all]

theorem lines_image (a : Nat) :
    image (SRecordReader.pieces (j.lines file)) a =
      (Piece.mk j.addrOffset (j.window file)).byte a := by
  rw [lines_pieces valid ends]
  have covered := records_cover valid
  exact image_cut _ _ (by rw [window_length valid]; omega) a

end

section
variable {j : Job} {file : List UInt8} (valid : j.Valid file) (ends : j.Ends)
include valid

theorem pieces_bottom : bottom (word - 1) (j.pieces file) = j.addrOffset := by
  have small := valid.offset
  unfold word at small ⊢
  apply Nat.le_antisymm
  · have first : (⟨j.addrOffset, (j.window file).take j.lineLength⟩ : Piece UInt8) ∈
        j.pieces file := by
      unfold Job.pieces Job.records
      exact List.mem_cons_self
    exact bottom_le _ first
  · apply le_bottom
    · omega
    · intro p there
      exact (cut_mem there).1

include ends

theorem pieces_top : top (j.pieces file) = j.maxAddr + 1 := by
  have last := maxAddr_eq valid ends
  have length := window_length valid
  have covered := records_cover valid
  have tight := records_tight j
  have order := valid.order
  apply Nat.le_antisymm
  · apply top_le
    intro p there
    have stop := cut_stop (by omega) there
    omega
  · have final : image (j.pieces file) j.maxAddr =
        (Piece.mk j.addrOffset (j.window file)).byte j.maxAddr :=
      image_cut _ _ (by omega) _
    have inside : j.maxAddr - j.addrOffset < (j.window file).length := by omega
    have there : image (j.pieces file) j.maxAddr =
        some (j.window file)[j.maxAddr - j.addrOffset] := by
      rw [final]
      simp [Piece.byte, last]
    obtain ⟨p, listed, covers⟩ := image_some there
    have stop := stop_le_top listed
    have reached := (byte_some covers).2
    omega

end

/-- What srec2bin makes of a text that bin2srec has printed: the window, behind the filler up
    to its address and before the filler that makes up the asked size. -/
def restored (j : Job) (r : SRecordReader.Job) (file : List UInt8) : List UInt8 :=
  List.replicate (j.addrOffset - r.minAddr) r.filler ++ (j.window file ++
    List.replicate ((min r.minAddr j.addrOffset + r.maxAddr) % word - j.maxAddr) r.filler)

theorem lines_restored {j : Job} {r : SRecordReader.Job} {file : List UInt8}
    (valid : j.Valid file) (ends : j.Ends) (reader : r.Valid)
    (sized : max j.maxAddr ((min r.minAddr j.addrOffset + r.maxAddr) % word) + 1 -
      min r.minAddr j.addrOffset < word) :
    r.Writes (TextLines.text (j.lines file)) (restored j r file) := by
  have same := lines_pieces valid ends
  have last := maxAddr_eq valid ends
  have length := window_length valid
  have low : SRecordReader.outLow r (j.pieces file) = min r.minAddr j.addrOffset := by
    rw [SRecordReader.outLow, pieces_bottom valid]
  have high : SRecordReader.outHigh r (j.pieces file) =
      max j.maxAddr ((min r.minAddr j.addrOffset + r.maxAddr) % word) := by
    rw [SRecordReader.outHigh, pieces_top valid ends, low, Nat.add_sub_cancel]
  have written := SRecordReader.writes_output reader (lines_readable valid ends)
    (by rw [same, pieces_top valid ends]; omega) (by rw [same, high, low]; exact sized)
  have result : SRecordReader.output r (SRecordReader.pieces (j.lines file)) =
      restored j r file := by
    unfold restored
    apply List.ext_getElem
    · rw [SRecordReader.output_length, same, low, high]
      simp only [List.length_append, List.length_replicate, length]
      omega
    · intro i inside listed
      rw [same] at inside
      have place := lines_image valid ends (min r.minAddr j.addrOffset + i)
      rw [same] at place
      simp only [SRecordReader.output, List.getElem_map, List.getElem_range, same, low, place,
        Piece.byte]
      rcases Nat.lt_or_ge i (j.addrOffset - r.minAddr) with front | behind
      · have before : ¬ j.addrOffset ≤ min r.minAddr j.addrOffset + i := by omega
        rw [List.getElem_append_left (by simpa using front), List.getElem_replicate,
          if_neg before]
        rfl
      · have above : j.addrOffset ≤ min r.minAddr j.addrOffset + i := by omega
        have shift : min r.minAddr j.addrOffset + i - j.addrOffset =
            i - (j.addrOffset - r.minAddr) := by omega
        rw [List.getElem_append_right (by simpa using behind), if_pos above, shift]
        simp only [List.length_replicate]
        rcases Nat.lt_or_ge (i - (j.addrOffset - r.minAddr)) (j.window file).length with
          within | after
        · rw [List.getElem_append_left within, List.getElem?_eq_getElem within]
          rfl
        · rw [List.getElem_append_right after, List.getElem?_eq_none after,
            List.getElem_replicate]
          rfl
  rwa [result] at written

/-- A file that is not empty, in any window and at any address such that a full line from where
    the last record begins ends below `2 ^ 32`: bin2srec returns, and srec2bin of its output gives
    the window back, if the length of what it writes is a 32-bit number. -/
theorem srec2bin_bin2srec {o : Options} {ro : SRecordReader.Options} {file : List UInt8}
    {j : Job} (full : file ≠ []) (opened : main o file.length = .ok j) (ends : j.Ends)
    (sized : max j.maxAddr
        ((min (SRecordReader.main ro).minAddr j.addrOffset + (SRecordReader.main ro).maxAddr) %
          word) + 1 - min (SRecordReader.main ro).minAddr j.addrOffset < word)
    (buf : List UInt8) :
    ∃ text, j.Prints file buf text ∧
      (SRecordReader.main ro).Writes text (restored j (SRecordReader.main ro) file) := by
  have valid := main_valid full opened
  exact ⟨_, job_prints valid ends buf,
    lines_restored valid ends (SRecordReader.main_valid ro) sized⟩

def windowOptions : Options := ⟨some ['1', '0', '0'], ['2'], some ['1', '2'], 3, 8, true⟩

def windowJob : Job := ⟨0x100, 2, 0x12, 3, 8, true⟩

def numbered : List UInt8 := (List.range 20).map UInt8.ofNat

def readerOptions : SRecordReader.Options :=
  ⟨some ['F', '8'], some ['2', '0'], some ['A', 'A']⟩

theorem window_restored : ∃ text, windowJob.Prints numbered [] text ∧
    (SRecordReader.main readerOptions).Writes text
      (List.replicate 8 0xAA ++ ((numbered.drop 2).take 17 ++ List.replicate 7 0xAA)) :=
  @srec2bin_bin2srec windowOptions readerOptions numbered windowJob (by decide) (by rfl)
    (by decide) (by decide) []

end SRecordRoundTrip
