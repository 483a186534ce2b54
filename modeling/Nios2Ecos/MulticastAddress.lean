import Mathlib.Data.BitVec

/- The addresses that the multicast filters of the Ethernet drivers take. -/
namespace MulticastAddress

/-- The octets in the order of the wire. -/
abbrev MacAddress := Fin 6 → BitVec 8

def GroupAddress (addr : MacAddress) : Prop := addr 0 &&& 1 ≠ 0

instance : DecidablePred GroupAddress := fun addr => inferInstanceAs (Decidable (addr 0 &&& 1 ≠ 0))

end MulticastAddress
