import Mathlib.Data.List.Basic

/- Pieces of data at addresses. What they mean together is a partial image: at each address
   the byte of the last piece that covers it. -/
namespace CoveredBytes
variable {Byte : Type}

structure Piece (Byte : Type) where
  address : Nat
  bytes : List Byte
  deriving DecidableEq

def Piece.byte (p : Piece Byte) (a : Nat) : Option Byte :=
  if p.address ≤ a then p.bytes[a - p.address]? else none

def Piece.stop (p : Piece Byte) : Nat := p.address + p.bytes.length

def image : List (Piece Byte) → Nat → Option Byte
  | [], _ => none
  | p :: ps, a => (image ps a).or (p.byte a)

def bottom (low : Nat) : List (Piece Byte) → Nat
  | [] => low
  | p :: ps => min p.address (bottom low ps)

def top : List (Piece Byte) → Nat
  | [] => 0
  | p :: ps => max p.stop (top ps)

def overwrite (file : List Byte) (position : Nat) (bytes : List Byte) : List Byte :=
  file.take position ++ (bytes ++ file.drop (position + bytes.length))

/-- Data cut into consecutive pieces of `size` bytes, the last one shorter. -/
def cut (size address : Nat) : Nat → List Byte → List (Piece Byte)
  | 0, _ => []
  | n + 1, data => ⟨address, data.take size⟩ :: cut size (address + size) n (data.drop size)

theorem image_append (ps qs : List (Piece Byte)) (a : Nat) :
    image (ps ++ qs) a = (image qs a).or (image ps a) := by
  induction ps with
  | nil => simp [image]
  | cons p ps ih => simp [image, ih, Option.or_assoc]

theorem image_repeated (ps : List (Piece Byte)) (p : Piece Byte) (a : Nat) :
    image (ps ++ [p, p]) a = image (ps ++ [p]) a := by
  simp only [image_append, image]
  cases p.byte a <;> simp

theorem byte_some {p : Piece Byte} {a : Nat} {b : Byte} (there : p.byte a = some b) :
    p.address ≤ a ∧ a < p.stop := by
  unfold Piece.byte at there
  split at there
  · rename_i above
    have inside := (List.getElem?_eq_some_iff.mp there).1
    exact ⟨above, by unfold Piece.stop; omega⟩
  · cases there

theorem image_some {ps : List (Piece Byte)} {a : Nat} {b : Byte} (there : image ps a = some b) :
    ∃ p ∈ ps, p.byte a = some b := by
  induction ps with
  | nil => cases there
  | cons p ps ih =>
    rcases Option.or_eq_some_iff.mp there with later | ⟨_, first⟩
    · obtain ⟨q, listed, covers⟩ := ih later
      exact ⟨q, List.mem_cons_of_mem _ listed, covers⟩
    · exact ⟨p, List.mem_cons_self, first⟩

theorem bottom_le (low : Nat) {ps : List (Piece Byte)} {p : Piece Byte} (there : p ∈ ps) :
    bottom low ps ≤ p.address := by
  induction ps with
  | nil => simp at there
  | cons q ps ih =>
    rcases List.mem_cons.mp there with same | later
    · subst same
      exact Nat.min_le_left _ _
    · exact Nat.le_trans (Nat.min_le_right _ _) (ih later)

theorem bottom_le_low (low : Nat) (ps : List (Piece Byte)) : bottom low ps ≤ low := by
  induction ps with
  | nil => exact Nat.le_refl _
  | cons p ps ih => exact Nat.le_trans (Nat.min_le_right _ _) ih

theorem bottom_lowered (low a : Nat) (ps : List (Piece Byte)) :
    bottom (min low a) ps = min a (bottom low ps) := by
  induction ps with
  | nil => exact Nat.min_comm _ _
  | cons p ps ih =>
    simp only [bottom, ih]
    omega

theorem stop_le_top {ps : List (Piece Byte)} {p : Piece Byte} (there : p ∈ ps) :
    p.stop ≤ top ps := by
  induction ps with
  | nil => simp at there
  | cons q ps ih =>
    rcases List.mem_cons.mp there with same | later
    · subst same
      exact Nat.le_max_left _ _
    · exact Nat.le_trans (ih later) (Nat.le_max_right _ _)

theorem top_le {ps : List (Piece Byte)} {limit : Nat} (inside : ∀ p ∈ ps, p.stop ≤ limit) :
    top ps ≤ limit := by
  induction ps with
  | nil => exact Nat.zero_le _
  | cons p ps ih =>
    have rest := ih (by intro q later; exact inside q (by simp [later]))
    exact Nat.max_le.mpr ⟨inside p (by simp), rest⟩

theorem le_bottom {low floor : Nat} {ps : List (Piece Byte)} (start : floor ≤ low)
    (above : ∀ p ∈ ps, floor ≤ p.address) : floor ≤ bottom low ps := by
  induction ps with
  | nil => exact start
  | cons p ps ih =>
    have rest := ih (by intro q later; exact above q (by simp [later]))
    exact Nat.le_min.mpr ⟨above p (by simp), rest⟩

theorem bottom_same {low : Nat} {ps qs : List (Piece Byte)} (known : ∀ p ∈ qs, p ∈ ps) :
    bottom low ps ≤ bottom low qs :=
  le_bottom (bottom_le_low low ps) (by intro p there; exact bottom_le low (known p there))

theorem top_same {ps qs : List (Piece Byte)} (known : ∀ p ∈ qs, p ∈ ps) : top qs ≤ top ps :=
  top_le (by intro p there; exact stop_le_top (known p there))

theorem overwrite_length {file : List Byte} {position : Nat} {bytes : List Byte}
    (inside : position + bytes.length ≤ file.length) :
    (overwrite file position bytes).length = file.length := by
  simp [overwrite]
  omega

theorem overwrite_get {file : List Byte} {position : Nat} {bytes : List Byte}
    (inside : position + bytes.length ≤ file.length) (i : Nat) :
    (overwrite file position bytes)[i]? = ((Piece.mk position bytes).byte i).or file[i]? := by
  have front : (file.take position).length = position := by
    simp
    omega
  rcases Nat.lt_or_ge i position with before | behind
  · rw [overwrite, List.getElem?_append_left (by omega)]
    simp [Piece.byte, Nat.not_le.mpr before, before]
  · rw [overwrite, List.getElem?_append_right (by omega), front]
    rcases Nat.lt_or_ge (i - position) bytes.length with covered | after
    · rw [List.getElem?_append_left covered]
      simp [Piece.byte, behind, List.getElem?_eq_getElem covered]
    · rw [List.getElem?_append_right after]
      have same : position + bytes.length + (i - position - bytes.length) = i := by omega
      simp [Piece.byte, behind, List.getElem?_eq_none after, same]

/-- Writing the pieces one after the other at their distance from `base` leaves their image in
    front of what the file held. -/
theorem overwrites_get {base : Nat} {ps : List (Piece Byte)} {file : List Byte}
    (inside : ∀ p ∈ ps, base ≤ p.address ∧ p.stop ≤ base + file.length) (i : Nat) :
    (ps.foldl (fun f p => overwrite f (p.address - base) p.bytes) file)[i]? =
      (image ps (base + i)).or file[i]? := by
  induction ps generalizing file with
  | nil => simp [image]
  | cons p ps ih =>
    have here := inside p (by simp)
    unfold Piece.stop at here
    have fits : p.address - base + p.bytes.length ≤ file.length := by omega
    have later : ∀ q ∈ ps, base ≤ q.address ∧
        q.stop ≤ base + (overwrite file (p.address - base) p.bytes).length := by
      intro q there
      rw [overwrite_length fits]
      exact inside q (by simp [there])
    have shifted : (Piece.mk (p.address - base) p.bytes).byte i = p.byte (base + i) := by
      have moved : i - (p.address - base) = base + i - p.address := by omega
      have order : p.address - base ≤ i ↔ p.address ≤ base + i := by omega
      simp [Piece.byte, moved, order]
    simp only [List.foldl_cons, image]
    rw [ih later, overwrite_get fits, shifted, Option.or_assoc]

theorem image_cut {size n : Nat} (address : Nat) (data : List Byte) (enough : data.length ≤ n * size)
    (a : Nat) : image (cut size address n data) a = (Piece.mk address data).byte a := by
  induction n generalizing address data with
  | zero =>
    have none_left : data = [] := by
      rw [Nat.zero_mul] at enough
      exact List.eq_nil_of_length_eq_zero (by omega)
    simp [cut, image, Piece.byte, none_left]
  | succ n ih =>
    rw [Nat.succ_mul] at enough
    have rest := ih (address + size) (data.drop size) (by rw [List.length_drop]; omega)
    simp only [cut, image, rest, Piece.byte]
    by_cases later : address + size ≤ a
    · have above : address ≤ a := by omega
      have same : size + (a - (address + size)) = a - address := by omega
      have beyond : (data.take size)[a - address]? = none := by
        rw [List.getElem?_eq_none_iff, List.length_take]
        omega
      simp [later, above, same, beyond]
    · by_cases above : address ≤ a
      · have inside : a - address < size := by omega
        simp [later, above, inside]
      · simp [later, above]

theorem cut_mem {size n : Nat} {address : Nat} {data : List Byte} {p : Piece Byte}
    (there : p ∈ cut size address n data) :
    address ≤ p.address ∧ p.bytes.length ≤ size ∧ p.address + size ≤ address + n * size := by
  induction n generalizing address data with
  | zero => simp [cut] at there
  | succ n ih =>
    rw [Nat.succ_mul]
    rcases List.mem_cons.mp there with first | later
    · subst first
      have short : (data.take size).length ≤ size := by
        rw [List.length_take]
        exact Nat.min_le_left _ _
      exact ⟨Nat.le_refl _, short, by dsimp only; omega⟩
    · have rest := ih later
      omega

theorem cut_stop {size n : Nat} {address : Nat} {data : List Byte} {p : Piece Byte}
    (tight : n * size < data.length + size) (there : p ∈ cut size address n data) :
    p.stop ≤ address + data.length := by
  induction n generalizing address data with
  | zero => simp [cut] at there
  | succ n ih =>
    rw [Nat.succ_mul] at tight
    rcases List.mem_cons.mp there with first | later
    · subst first
      rw [Piece.stop, List.length_take]
      exact Nat.add_le_add_left (Nat.min_le_right _ _) address
    · rcases Nat.lt_or_ge data.length size with last | more
      · cases n with
        | zero => simp [cut] at later
        | succ n =>
          rw [Nat.succ_mul] at tight
          omega
      · have rest := ih (by rw [List.length_drop]; omega) later
        rw [List.length_drop] at rest
        omega

end CoveredBytes
