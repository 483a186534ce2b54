import Mathlib.Data.List.Basic
import Mathlib.Algebra.Order.Ring.Nat
import Nios2Ecos.CoveredBytes
import Nios2Ecos.TextLines

/- bin2srec: a window of a binary file printed as Motorola S-records. 32-bit variables are
   naturals below `2 ^ 32` whose arithmetic wraps. -/
namespace SRecord
open CoveredBytes

abbrev word : Nat := 2 ^ 32

def charToUint (c : Char) : Nat :=
  if '0' ≤ c ∧ c ≤ '9' then c.toNat - '0'.toNat
  else if 'A' ≤ c ∧ c ≤ 'F' then c.toNat - 'A'.toNat + 10
  else if 'a' ≤ c ∧ c ≤ 'f' then c.toNat - 'a'.toNat + 10
  else 0

def strToUint32 (s : List Char) : Nat :=
  (s.take 8).foldl (fun res c => (res * 16 % word + charToUint c) % word) 0

def printfHex (width value : Nat) : List Char :=
  let digits := (Nat.toDigits 16 value).map Char.toUpper
  List.replicate (width - digits.length) '0' ++ digits

/-- The command line: the texts of -o, -b and -e, the numbers of -a and -l (2 and 32 when the
    option is absent), and whether -s is absent. -/
structure Options where
  offset : Option (List Char)
  start : List Char
  stop : Option (List Char)
  addrSize : Int
  lineLength : Int
  doHeaders : Bool

structure Job where
  addrOffset : Nat
  beginAddr : Nat
  endAddr : Nat
  addrBytes : Nat
  lineLength : Nat
  doHeaders : Bool
  deriving DecidableEq

def endAddr (o : Options) (size : Nat) : Nat :=
  match o.stop with
  | some s => min size (strToUint32 s)
  | none => size

def addrOffset (o : Options) : Nat :=
  match o.offset with
  | some s => strToUint32 s
  | none => strToUint32 o.start

def main (o : Options) (fileSize : Nat) : Except Nat Job :=
  let size := (fileSize % word + (word - 1)) % word
  if strToUint32 o.start > size then .error 3
  else if endAddr o size < strToUint32 o.start then .error 3
  else
    .ok
      { addrOffset := addrOffset o
        beginAddr := strToUint32 o.start
        endAddr := endAddr o size
        addrBytes := (min 4 (max 2 o.addrSize)).toNat
        lineLength := (min 32 (max 8 o.lineLength)).toNat
        doHeaders := o.doHeaders }

def Job.maxAddr (j : Job) : Nat := (j.addrOffset + (j.endAddr - j.beginAddr)) % word

def Job.raised (j : Job) : Nat :=
  let bytes := if j.maxAddr > 0xffff ∧ j.addrBytes < 3 then 3 else j.addrBytes
  if j.maxAddr > 0xffffff ∧ bytes < 4 then 4 else bytes

def addressBytes (addrBytes address : Nat) : List Nat :=
  (List.range addrBytes).reverse.map fun i => (address >>> (8 * i)) % 256

def summed (bytes : List Nat) (checksum : Nat) : Nat :=
  bytes.foldl (fun checksum b => (checksum + b) % 256) (checksum % 256)

/-- A data record, and with no data the end record: the two are printed alike. -/
def printRecord (kind addrBytes address : Nat) (data : List UInt8) : List Char :=
  let byteCount := addrBytes + data.length + 1
  let bytes := addressBytes addrBytes address ++ data.map UInt8.toNat
  'S' :: (Nat.toDigits 10 kind ++ printfHex 2 byteCount ++ bytes.flatMap (printfHex 2) ++
    printfHex 2 (255 - summed bytes byteCount))

def countRecord (recordCount : Nat) : List Char :=
  let checksum := (3 + recordCount % 256 + (recordCount >>> 8) % 256) % 256
  ['S', '5', '0', '3'] ++ printfHex 4 recordCount ++ printfHex 2 (255 - checksum)

def headerRecord : List Char := "S00600004844521B".toList

structure Loop where
  address : Nat
  recordCount : Nat
  buf : List UInt8
  infile : List UInt8
  out : List Char
  deriving DecidableEq

/-- A short read leaves the end of the buffer as it was. -/
def fread (buf infile : List UInt8) (n : Nat) : List UInt8 :=
  infile.take n ++ buf.drop (infile.take n).length

def Job.test (j : Job) (s : Loop) : Bool := s.address ≤ j.maxAddr

def Job.turn (j : Job) (s : Loop) : Loop :=
  let thisLine := min j.lineLength ((1 + j.maxAddr + word - s.address) % word)
  let buf := fread s.buf s.infile thisLine
  { address := (s.address + j.lineLength) % word
    recordCount := s.recordCount + 1
    buf := buf
    infile := s.infile.drop thisLine
    out := s.out ++ printRecord (j.raised - 1) j.raised s.address (buf.take thisLine) ++ ['\n'] }

def Job.entry (j : Job) (file buf : List UInt8) : Loop :=
  { address := j.addrOffset
    recordCount := 0
    buf := buf
    infile := file.drop j.beginAddr
    out := if j.doHeaders then headerRecord ++ ['\n'] else [] }

def Job.footer (j : Job) (recordCount : Nat) : List Char :=
  if j.doHeaders then
    countRecord recordCount ++ ['\n'] ++ printRecord (11 - j.raised) j.raised j.addrOffset [] ++
      ['\n']
  else []

def Job.Prints (j : Job) (file buf : List UInt8) (out : List Char) : Prop :=
  ∃ s, WhileLoop.Returns j.test j.turn (j.entry file buf) s ∧
    out = s.out ++ j.footer s.recordCount

def Job.window (j : Job) (file : List UInt8) : List UInt8 :=
  (file.drop j.beginAddr).take (j.endAddr - j.beginAddr + 1)

def Job.records (j : Job) : Nat := (j.endAddr - j.beginAddr) / j.lineLength + 1

def Job.pieces (j : Job) (file : List UInt8) : List (Piece UInt8) :=
  cut j.lineLength j.addrOffset j.records (j.window file)

def Job.line (j : Job) (p : Piece UInt8) : List Char :=
  printRecord (j.raised - 1) j.raised p.address p.bytes

def Job.lines (j : Job) (file : List UInt8) : List (List Char) :=
  let data := (j.pieces file).map j.line
  if j.doHeaders then
    headerRecord :: data ++
      [countRecord j.records, printRecord (11 - j.raised) j.raised j.addrOffset []]
  else data

structure Job.Valid (j : Job) (file : List UInt8) : Prop where
  order : j.beginAddr ≤ j.endAddr
  inside : j.endAddr < file.length
  last : j.endAddr < word
  offset : j.addrOffset < word
  least : 2 ≤ j.addrBytes
  most : j.addrBytes ≤ 4
  short : 8 ≤ j.lineLength
  long : j.lineLength ≤ 32

/-- The address that ends the loop is still a 32-bit number. -/
def Job.Ends (j : Job) : Prop := j.addrOffset + j.records * j.lineLength < word

instance (j : Job) : Decidable j.Ends :=
  inferInstanceAs (Decidable (j.addrOffset + j.records * j.lineLength < word))

theorem strToUint32_lt (s : List Char) : strToUint32 s < word := by
  have general : ∀ (cs : List Char) (res : Nat), res < word →
      cs.foldl (fun res c => (res * 16 % word + charToUint c) % word) res < word := by
    intro cs
    induction cs with
    | nil =>
      intro res small
      exact small
    | cons c cs ih =>
      intro res small
      exact ih _ (Nat.mod_lt _ (by decide))
  exact general _ 0 (by decide)

theorem endAddr_le (o : Options) (size : Nat) : endAddr o size ≤ size := by
  unfold endAddr
  split
  · exact Nat.min_le_left _ _
  · exact Nat.le_refl _

theorem addrOffset_lt (o : Options) : addrOffset o < word := by
  unfold addrOffset
  split
  · exact strToUint32_lt _
  · exact strToUint32_lt _

theorem main_valid {o : Options} {file : List UInt8} {j : Job} (full : file ≠ [])
    (opened : main o file.length = .ok j) : j.Valid file := by
  have some_byte : 0 < file.length := List.length_pos_iff.mpr full
  have size_word : (file.length % word + (word - 1)) % word < word := Nat.mod_lt _ (by decide)
  have size_inside : (file.length % word + (word - 1)) % word < file.length := by
    simp only [word]
    omega
  have bound := endAddr_le o ((file.length % word + (word - 1)) % word)
  unfold main at opened
  simp only at opened
  split at opened
  · cases opened
  · split at opened
    · cases opened
    · rename_i above order
      cases opened
      exact
        { order := Nat.not_lt.mp order
          inside := Nat.lt_of_le_of_lt bound size_inside
          last := Nat.lt_of_le_of_lt bound size_word
          offset := addrOffset_lt o
          least := by dsimp only; omega
          most := by dsimp only; omega
          short := by dsimp only; omega
          long := by dsimp only; omega }

theorem records_tight (j : Job) : j.records * j.lineLength ≤
    j.endAddr - j.beginAddr + j.lineLength := by
  unfold Job.records
  rw [Nat.add_one_mul]
  have := Nat.div_mul_le_self (j.endAddr - j.beginAddr) j.lineLength
  omega

section
variable {j : Job} {file : List UInt8} (valid : j.Valid file) (ends : j.Ends)
include valid

theorem records_cover : j.endAddr - j.beginAddr < j.records * j.lineLength := by
  have positive : 0 < j.lineLength := by
    have := valid.short
    omega
  unfold Job.records
  rw [Nat.add_one_mul]
  have := Nat.div_add_mod (j.endAddr - j.beginAddr) j.lineLength
  have := Nat.mod_lt (j.endAddr - j.beginAddr) positive
  rw [Nat.mul_comm]
  omega

theorem window_length : (j.window file).length = j.endAddr - j.beginAddr + 1 := by
  have order := valid.order
  have inside := valid.inside
  simp [Job.window]
  omega

include ends

theorem maxAddr_eq : j.maxAddr = j.addrOffset + (j.endAddr - j.beginAddr) := by
  have covered := records_cover valid
  unfold Job.Ends at ends
  unfold Job.maxAddr
  exact Nat.mod_eq_of_lt (by omega)

end

theorem turn_out {j : Job} {s : Loop} (below : s.address ≤ j.maxAddr)
    (room : s.address + j.lineLength < word) (top : j.maxAddr + 1 < word)
    (data : j.maxAddr + 1 - s.address ≤ s.infile.length) :
    (j.turn s).out = s.out ++ j.line ⟨s.address,
      (s.infile.take (j.maxAddr + 1 - s.address)).take j.lineLength⟩ ++ ['\n'] ∧
    (j.turn s).address = s.address + j.lineLength ∧
    (j.turn s).recordCount = s.recordCount + 1 ∧
    (j.turn s).infile = s.infile.drop (min j.lineLength (j.maxAddr + 1 - s.address)) := by
  have wrapped : min j.lineLength ((1 + j.maxAddr + word - s.address) % word) =
      min j.lineLength (j.maxAddr + 1 - s.address) := by
    unfold word at top ⊢
    omega
  have taken : (fread s.buf s.infile (min j.lineLength (j.maxAddr + 1 - s.address))).take
      (min j.lineLength (j.maxAddr + 1 - s.address)) =
      (s.infile.take (j.maxAddr + 1 - s.address)).take j.lineLength := by
    rw [fread, List.take_append_of_le_length (by simp; omega), List.take_take, List.take_take]
    congr 1
    omega
  simp only [Job.turn, wrapped, taken, Job.line, true_and, and_true]
  exact Nat.mod_eq_of_lt room

theorem loop_returns {j : Job} {m : Nat} {s : Loop} (top : j.maxAddr + 1 < word)
    (room : s.address + m * j.lineLength < word)
    (covered : j.maxAddr < s.address + m * j.lineLength)
    (tight : s.address + m * j.lineLength ≤ j.maxAddr + j.lineLength)
    (data : j.maxAddr + 1 - s.address ≤ s.infile.length) :
    ∃ r, WhileLoop.Returns j.test j.turn s r ∧ r.recordCount = s.recordCount + m ∧
      r.out = s.out ++ TextLines.text ((cut j.lineLength s.address m
        (s.infile.take (j.maxAddr + 1 - s.address))).map j.line) := by
  induction m generalizing s with
  | zero =>
    have off : j.test s = false := by
      simp [Job.test]
      omega
    exact ⟨s, WhileLoop.returns_done off, rfl, by simp [cut, TextLines.text]⟩
  | succ m ih =>
    rw [Nat.add_one_mul] at room covered tight
    have below : s.address ≤ j.maxAddr := by omega
    obtain ⟨printed, next, counted, left⟩ := turn_out below (by omega) top data
    have on : j.test s = true := by simpa [Job.test] using below
    have remaining : j.maxAddr + 1 - (j.turn s).address ≤ (j.turn s).infile.length := by
      rw [next, left, List.length_drop]
      omega
    obtain ⟨r, returned, count, out⟩ := ih (by omega) (by omega) (by omega) remaining
    refine ⟨r, WhileLoop.returns_turn on returned, by omega, ?_⟩
    have rest : (j.turn s).infile.take (j.maxAddr + 1 - (j.turn s).address) =
        (s.infile.take (j.maxAddr + 1 - s.address)).drop j.lineLength := by
      rw [next, left, List.drop_take]
      rcases Nat.le_total j.lineLength (j.maxAddr + 1 - s.address) with whole | part
      · rw [Nat.min_eq_left whole]
        congr 1
        omega
      · have none_left : j.maxAddr + 1 - (s.address + j.lineLength) = 0 := by omega
        have none_due : j.maxAddr + 1 - s.address - j.lineLength = 0 := by omega
        simp [none_left, none_due]
    rw [out, printed, rest, next]
    simp [cut, TextLines.text]

theorem job_prints {j : Job} {file : List UInt8} (valid : j.Valid file) (ends : j.Ends)
    (buf : List UInt8) : j.Prints file buf (TextLines.text (j.lines file)) := by
  have last := maxAddr_eq valid ends
  have covered := records_cover valid
  have tight := records_tight j
  have size := window_length valid
  have inside := valid.inside
  have order := valid.order
  unfold Job.Ends at ends
  have span : j.maxAddr + 1 - (j.entry file buf).address = j.endAddr - j.beginAddr + 1 := by
    simp only [Job.entry, last]
    omega
  obtain ⟨s, returned, count, out⟩ := @loop_returns j j.records (j.entry file buf) (by omega)
    (by simpa [Job.entry] using ends) (by simp only [Job.entry]; omega)
    (by simp only [Job.entry]; omega) (by rw [span]; simp [Job.entry]; omega)
  refine ⟨s, returned, ?_⟩
  have number : s.recordCount = j.records := by simpa [Job.entry] using count
  rw [out, number, span]
  cases headers : j.doHeaders <;>
    simp [Job.entry, Job.lines, Job.footer, Job.pieces, Job.window, TextLines.text, headers]

/-- No 32-bit address is past the last one: the loop goes on for ever. -/
theorem last_address_never_printed {j : Job} {file buf : List UInt8} {out : List Char}
    (offset : j.addrOffset < word) (top : j.maxAddr = word - 1) : ¬ j.Prints file buf out := by
  intro printed
  obtain ⟨s, ⟨n, returned⟩, _⟩ := printed
  have never : WhileLoop.turns j.test j.turn n (j.entry file buf) = none := by
    apply WhileLoop.never_returns (fun s => s.address < word)
    · intro s below
      simp only [Job.test, top, decide_eq_true_eq]
      omega
    · intro s below
      exact Nat.mod_lt _ (by decide)
    · exact offset
  rw [never] at returned
  cases returned

/-- The size of an empty file is taken as 0xffffffff, the address after which nothing ends. -/
theorem empty_file_never_printed {o : Options} {j : Job} (no_offset : o.offset = none)
    (no_stop : o.stop = none) (opened : main o 0 = .ok j) (buf : List UInt8) (out : List Char) :
    ¬ j.Prints [] buf out := by
  have small := strToUint32_lt o.start
  unfold main at opened
  simp only [addrOffset, endAddr, no_offset, no_stop] at opened
  split at opened
  · cases opened
  · cases opened
    apply last_address_never_printed
    · exact small
    · simp only [Job.maxAddr, word] at small ⊢
      omega

end SRecord
