import Nios2Ecos.LineTranscript
import Mathlib.Logic.Function.Iterate

/- The sender's side of the line, in CRC mode: what a packet looks like, and that it
   is heard as it was sent. -/
namespace YmodemSender
open XyzModem LineTranscript
variable (crc : List UInt8 → UInt16)

/-- A data packet on the line. Only 128 and 1024 byte payloads have a header byte. -/
def packet (blk : UInt8) (data : List UInt8) : Line :=
  some (if data.length = 128 then SOH else STX) :: some blk :: some (0xFF ^^^ blk) ::
    (data.map some ++ [some (crc data >>> 8).toUInt8, some (crc data).toUInt8])

/- The check of XMODEM-CRC, polynomial 0x1021. -/
def crcShift (c : UInt16) : UInt16 :=
  if c &&& 0x8000 = 0 then c <<< 1 else (c <<< 1) ^^^ 0x1021

def crcXmodem (data : List UInt8) : UInt16 :=
  data.foldl (fun (c : UInt16) (b : UInt8) => crcShift^[8] (c ^^^ (b.toUInt16 <<< (8 : UInt16)))) 0

example : crcXmodem [0x31, 0x32, 0x33, 0x34, 0x35, 0x36, 0x37, 0x38, 0x39] = 0x31C3 := by
  decide +kernel

def idleReceiver (line : Line) : Xyz where
  line := line
  sent := []
  pkt := List.replicate 1024 0
  bufp := 0
  blk := 0
  cblk := 0
  crc1 := 0
  crc2 := 0
  nextBlk := 0
  len := 0
  mode := .xmodem
  totalRetries := 0
  totalSOH := 0
  totalSTX := 0
  totalCAN := 0
  crcMode := false
  atEof := false
  txAck := false

theorem take_bytes_sent (data : List UInt8) (rest : Line) :
    takeBytes data.length (data.map some ++ rest) = (data, rest) := by
  induction data with
  | nil => rfl
  | cons b data ih => simp only [List.length_cons, List.map_cons, List.cons_append, takeBytes, ih]

theorem crc_bytes (c : UInt16) :
    ((c >>> 8).toUInt8.toUInt16 <<< 8) ||| c.toUInt8.toUInt16 = c := by
  apply UInt16.toNat_inj.mp
  have small := c.toNat_lt
  have low : c.toNat % 256 < 2 ^ 8 := Nat.mod_lt _ (by decide)
  have high : c.toNat / 256 % 256 = c.toNat / 256 := Nat.mod_eq_of_lt (by omega)
  have fits : c.toNat / 256 * 256 % 65536 = c.toNat / 256 * 256 := Nat.mod_eq_of_lt (by omega)
  have joined := Nat.shiftLeft_add_eq_or_of_lt low (c.toNat / 256)
  simp only [Nat.shiftLeft_eq, Nat.reducePow] at joined
  simp only [UInt16.toNat_or, UInt16.toNat_shiftLeft, UInt8.toNat_toUInt16, UInt16.toNat_toUInt8,
    UInt16.toNat_shiftRight, UInt16.reduceToNat, Nat.reduceMod, Nat.shiftLeft_eq,
    Nat.shiftRight_eq_div_pow, Nat.reducePow, high, fits, ← joined]
  omega

theorem hear_sent_packet (blk : UInt8) (data : List UInt8) (rest : Line)
    (length : data.length = 128 ∨ data.length = 1024) :
    hear crc true (packet crc blk data ++ rest) = (.packet blk data, rest) := by
  have block : blk ^^^ (0xFF ^^^ blk) = 0xFF := by
    rw [UInt8.xor_comm 0xFF, ← UInt8.xor_assoc, UInt8.xor_self, UInt8.zero_xor]
  have size : messageLength (if data.length = 128 then SOH else STX) = data.length := by
    rcases length with small | large
    · rw [if_pos small, small]; rfl
    · rw [if_neg (by omega), large]; rfl
  have found : seekHeader 0 0 (packet crc blk data ++ rest) =
      (.inl (if data.length = 128 then SOH else STX),
        (packet crc blk data ++ rest).tail) := by
    simp only [packet, List.cons_append, seekHeader, List.tail_cons]
    apply if_pos
    by_cases small : data.length = 128
    · exact Or.inl (if_pos small)
    · exact Or.inr (if_neg small)
  unfold hear
  rw [found]
  simp only [packet, List.cons_append, List.tail_cons, hearMessage, List.append_assoc, size,
    take_bytes_sent, Nat.lt_irrefl, ↓reduceIte]
  simp only [List.nil_append, hearTrailer, judge, block, Matches, crc_bytes,
    ne_eq, not_true_eq_false, ↓reduceIte]

end YmodemSender
