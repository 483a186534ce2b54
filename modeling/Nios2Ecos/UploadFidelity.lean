import Nios2Ecos.YmodemUpload
import Nios2Ecos.YmodemSender
import Nios2Ecos.PaddingDebt

/- Whether the file of a completed upload is what was sent. The payloads that should
   make up the file are read off the transcript without any count of tries; the
   receiver's own account of them also has the padding it cuts off every packet and
   the retransmissions it takes for data on its last try. -/
namespace UploadFidelity
open XyzModem LineTranscript PacketReceiver StreamRead YmodemUpload YmodemSender PaddingDebt
variable (crc : List UInt8 → UInt16)

/-- The payloads of the data packets: the first valid packet with number `n`, then
    with `n + 1`, and so on until EOT. -/
def accepted (n : UInt8) : List Heard → List (List UInt8)
  | [] => []
  | .packet b data :: hs => if b = n then data :: accepted (n + 1) hs else accepted n hs
  | .eot :: _ => []
  | .cancel :: _ => []
  | .noise _ :: hs => accepted n hs

def Faithful (packets : List (List UInt8)) (file : List UInt8) : Prop :=
  ∃ missing, missing ≤ (packets.getLastD []).length ∧
    file ++ List.replicate missing PAD = packets.flatten

def fresh (data : List UInt8) : Entry UInt8 :=
  .trimmed (kept data) (data.length - (kept data).length)

/-- What the receiver delivers: packets in turn, and retransmissions heard on the
    last of the twenty tries. -/
def deliveries (n : UInt8) (left : Nat) : List Heard → List (Entry UInt8)
  | [] => []
  | .packet b data :: hs =>
    if b = n then fresh data :: deliveries (n + 1) spareTries hs
    else if b = n - 1 then
      if left = 0 then .extra data :: deliveries n spareTries hs else deliveries n (left - 1) hs
    else if left = 0 then [] else deliveries n (left - 1) hs
  | .eot :: _ => []
  | .cancel :: _ => []
  | .noise _ :: hs => if left = 0 then [] else deliveries n (left - 1) hs

theorem receive_delivered (n : UInt8) (left : Nat) (hs : List Heard) :
    (receive n left hs).bytes = deliveredAll (deliveries n left hs) := by
  induction hs generalizing n left with
  | nil => rfl
  | cons h hs ih =>
    cases h with
    | packet b data =>
      simp only [receive, deliveries]
      split_ifs
      · rw [bytes_prepend, ih]; rfl
      · rw [bytes_prepend, ih]; rfl
      · exact ih n (left - 1)
      · rfl
      · exact ih n (left - 1)
    | eot => rfl
    | cancel => rfl
    | noise s =>
      simp only [receive, deliveries]
      split_ifs
      · rfl
      · exact ih n (left - 1)

theorem drop_padding_pads (data : List UInt8) (n : Nat) :
    ∀ i, dropPadding data n ≤ i → i < n → data[i]? = some PAD := by
  induction n with
  | zero => intro i _ less; omega
  | succ n ih =>
    intro i above below
    simp only [dropPadding] at above
    split at above
    · rename_i last
      rcases Nat.lt_succ_iff_lt_or_eq.mp below with inner | rfl
      · exact ih i above inner
      · exact last
    · omega

theorem kept_length_pads (data : List UInt8) (n : Nat) :
    ∀ i, keptLength data n ≤ i → i < n → data[i]? = some PAD := by
  intro i above below
  unfold keptLength at above
  split at above
  · exact drop_padding_pads data n i above below
  · omega

theorem kept_complete (data : List UInt8) :
    kept data ++ List.replicate (data.length - (kept data).length) PAD = data := by
  have small := kept_length_le data data.length
  have length : (kept data).length = keptLength data data.length := by
    simp only [kept, List.length_take]
    omega
  have pads : OnlyPads PAD (data.drop (keptLength data data.length)) := by
    intro b mem
    obtain ⟨i, bound, rfl⟩ := List.getElem_of_mem mem
    rw [List.length_drop] at bound
    have found := kept_length_pads data data.length (keptLength data data.length + i)
      (by omega) (by omega)
    rw [List.getElem_drop]
    exact (List.getElem?_eq_some_iff.mp found).2
  have rest := only_pads_replicate PAD pads
  rw [List.length_drop, ← length] at rest
  conv_rhs => rw [← List.take_append_drop (keptLength data data.length) data]
  rw [← rest, length]
  rfl

theorem accepted_due (n : UInt8) (left : Nat) (hs : List Heard) (final : Stat)
    (ends : (receive n left hs).ending = .eot final) :
    (accepted n hs).flatten = dueAll PAD (deliveries n left hs) := by
  induction hs generalizing n left with
  | nil => cases ends
  | cons h hs ih =>
    cases h with
    | packet b data =>
      simp only [receive, accepted, deliveries] at ends ⊢
      split_ifs at ends ⊢
      · rw [List.flatten_cons, ih _ _ ends]
        simp only [dueAll, List.flatMap_cons, fresh, Entry.due, kept_complete]
      · exact ih _ _ ends
      · exact ih _ _ ends
      · exact ih _ _ ends
    | eot => rfl
    | cancel => cases ends
    | noise s =>
      simp only [receive, accepted, deliveries] at ends ⊢
      split_ifs at ends ⊢
      exact ih _ _ ends

theorem complete_opens {disk : Disk} {chan : Int} {old : Option (List UInt8)} {xyz : Xyz}
    (complete : (ymodemUpload crc disk chan old xyz).verdict = .complete) :
    opens crc chan xyz = true := by
  unfold ymodemUpload at complete
  unfold opens
  split at complete
  · cases complete
  · rename_i x start
    rw [start]

theorem complete_ending {r : Received} (complete : verdictOf r = .complete) :
    ∃ final, r.ending = .eot final := by
  unfold verdictOf at complete
  split at complete
  · rename_i ends
    exact ⟨.ok, ends⟩
  · rename_i stat _ ends
    exact ⟨stat, ends⟩
  · split at complete <;> cases complete

/-- The running account of cut padding that decides whether the file is faithful. -/
def Balanced (hs : List Heard) : Prop :=
  Settled PAD ((accepted 1 hs).getLastD []).length 0 (deliveries 1 spareTries hs)

theorem completed_upload_faithful_iff (disk : Disk) (stores : disk.Stores) (chan : Int)
    (old : Option (List UInt8)) (xyz : Xyz) (file : List UInt8)
    (complete : (ymodemUpload crc disk chan old xyz).verdict = .complete)
    (stored : (ymodemUpload crc disk chan old xyz).file = some file) :
    Faithful (accepted 1 (heardAfterOpen crc chan xyz)) file ↔
      Balanced (heardAfterOpen crc chan xyz) := by
  have concludes := upload_concludes crc disk stores chan old xyz (complete_opens crc complete)
  have content : file = (received crc chan xyz).bytes := by
    have keeps := concludes.keeps complete
    rw [stored] at keeps
    exact Option.some.inj keeps
  obtain ⟨final, ends⟩ := complete_ending (concludes.verdict.symm.trans complete)
  have delivered := receive_delivered 1 spareTries (heardAfterOpen crc chan xyz)
  have due := accepted_due 1 spareTries (heardAfterOpen crc chan xyz) final ends
  have debt := completes_iff_settled PAD
    ((accepted 1 (heardAfterOpen crc chan xyz)).getLastD []).length 0 0
    (deliveries 1 spareTries (heardAfterOpen crc chan xyz))
  rw [Int.sub_self] at debt
  unfold Balanced
  rw [← debt]
  unfold Faithful Completes
  rw [content, due, ← delivered]
  simp only [List.replicate_zero, List.nil_append]
  rfl

/- Transfers in CRC mode: a header packet, some data packets and what comes after
   them. -/
def fileHeader : List UInt8 := [0x66, 0x77, 0] ++ List.replicate 125 0

def transfer (payloads : List (UInt8 × List UInt8)) (ending : Line) : Xyz :=
  idleReceiver (packet crcXmodem 0 fileHeader ++
    (payloads.flatMap (fun p => packet crcXmodem p.1 p.2) ++ ending))

def properEnd : Line := some EOT :: packet crcXmodem 0 (List.replicate 128 0)

def ramDisk : Disk := ⟨3, fun _ n => n⟩

theorem ram_disk_stores : ramDisk.Stores :=
  ⟨by decide, fun _ _ => rfl⟩

def paddedBlock : List UInt8 := List.replicate 125 0x41 ++ List.replicate 3 PAD

set_option maxRecDepth 10000 in
theorem completed_upload_faithful_iff_padded_end :
    (ymodemUpload crcXmodem ramDisk 0 none (transfer [(1, paddedBlock)] properEnd)).file =
      some (List.replicate 125 0x41) ∧
    (Faithful (accepted 1 (heardAfterOpen crcXmodem 0 (transfer [(1, paddedBlock)] properEnd)))
        (List.replicate 125 0x41) ↔
      Balanced (heardAfterOpen crcXmodem 0 (transfer [(1, paddedBlock)] properEnd))) :=
  ⟨by decide +kernel,
    completed_upload_faithful_iff crcXmodem ramDisk ram_disk_stores 0 none _ _
      (by decide +kernel) (by decide +kernel)⟩

def innerPadding : Xyz :=
  transfer [(1, paddedBlock), (2, List.replicate 128 0x42)] properEnd

set_option maxRecDepth 10000 in
theorem completed_upload_loses_inner_padding :
    (ymodemUpload crcXmodem ramDisk 0 none innerPadding).verdict = .complete ∧
    ∃ file, (ymodemUpload crcXmodem ramDisk 0 none innerPadding).file = some file ∧
      ¬ Faithful (accepted 1 (heardAfterOpen crcXmodem 0 innerPadding)) file := by
  have packets : accepted 1 (heardAfterOpen crcXmodem 0 innerPadding) =
      [paddedBlock, List.replicate 128 0x42] := by decide +kernel
  refine ⟨by decide +kernel, List.replicate 125 0x41 ++ List.replicate 128 0x42,
    by decide +kernel, ?_⟩
  rw [packets]
  rintro ⟨missing, -, same⟩
  have shifted := congrArg (fun l => l[125]?) same
  rw [List.append_assoc, List.getElem?_append_right (by simp)] at shifted
  simp [paddedBlock, PAD] at shifted

end UploadFidelity
