-- What the memory holds after bytes were loaded. Addresses wrap around, so a
-- byte is found by its distance from the address of the first one.
import WordMachine.Machine.Memory
import WordMachine.Proofs.Words

namespace WordMachine.Memory

theorem toNat_sub_succ {x address : UInt16} (h : address ≠ x) :
    (x - address).toNat = (x - (address + 1)).toNat + 1 := by
  have hne : address.toNat ≠ x.toNat := fun he => h (UInt16.toNat_inj.1 he)
  have hx := x.toNat_lt
  have ha := address.toNat_lt
  simp only [UInt16.toNat_sub, UInt16.toNat_add]
  have h1 : (1 : UInt16).toNat = 1 := rfl
  rw [h1]
  omega

/-- A load that does not reach around the whole memory leaves each byte at its
distance from the start, and all other bytes as they were. -/
theorem read_load {bytes : Bytes} (h : bytes.length ≤ 65536) (m : Memory) (address x : UInt16) :
    (m.load bytes address).read x = (bytes[(x - address).toNat]?).getD (m.read x) := by
  induction bytes generalizing m address with
  | nil => rfl
  | cons b bs ih =>
    simp only [List.length_cons] at h
    rw [load, ih (by omega), read_write]
    by_cases hx : address = x
    · subst hx
      have hlast : (address - (address + 1)).toNat = 65535 := by
        have ha := address.toNat_lt
        simp only [UInt16.toNat_sub, UInt16.toNat_add]
        have h1 : (1 : UInt16).toNat = 1 := rfl
        rw [h1]
        omega
      rw [hlast, List.getElem?_eq_none (by omega)]
      simp
    · rw [if_neg hx, toNat_sub_succ hx, List.getElem?_cons_succ]

theorem toNat_add_sub {base : UInt16} {k : Nat} (h : k < 65536) :
    (base + UInt16.ofNat k - base).toNat = k := by
  rw [UInt16.add_comm, UInt16.add_sub_cancel]
  exact UInt16.toNat_ofNat_of_lt' h

/-- A word that was loaded is read from its place behind the start. -/
theorem readWord_load {front back : Bytes} {w : UInt16}
    (h : (front ++ (Word.toBytes w ++ back)).length ≤ 65536) (m : Memory) (base : UInt16) :
    (m.load (front ++ (Word.toBytes w ++ back)) base).readWord
      (base + UInt16.ofNat front.length) = w := by
  have hlen : front.length + 2 ≤ 65536 := by
    simp only [List.length_append, Word.length_toBytes] at h
    omega
  have h1 : base + UInt16.ofNat front.length + 1 = base + UInt16.ofNat (front.length + 1) := by
    rw [UInt16.add_assoc, UInt16.ofNat_add]
    rfl
  unfold readWord
  rw [h1, read_load h, read_load h, toNat_add_sub (by omega), toNat_add_sub (by omega)]
  simp [Word.toBytes]

end WordMachine.Memory
