/-
Status codes of the HAL, DMA memory and raw memory. A pointer is modelled by the memory from it
on, so a read past the end of a buffer is an ordinary read of whatever lies there.
-/
import AlJefra.Lib.LittleEndian

namespace AlJefra.Hal

open List

inductive HalStatus where
  | ok
  | error
  | timeout
  | busy
  | noDevice
  | noMemory
  | notSupported
  deriving DecidableEq, Repr

structure Dma (δ : Type) where
  alloc : δ → Nat → Option Nat × δ
  free : δ → Nat → Nat → δ

abbrev Pointer := Nat → UInt8

def Pointer.bytes (p : Pointer) (off len : Nat) : List UInt8 :=
  (List.range len).map fun i => p (off + i)

theorem Pointer.length_bytes (p : Pointer) (off len : Nat) : (p.bytes off len).length = len := by
  simp [Pointer.bytes]

theorem Pointer.bytes_window (p : Pointer) (off len o n : Nat) :
    ((p.bytes off len).drop o).take n = p.bytes (off + o) (min n (len - o)) := by
  refine ext_getElem ?_ fun i h1 h2 => ?_
  · simp [Pointer.length_bytes]
  · simp [Pointer.bytes, add_assoc]

theorem Pointer.bytes_of_append {p : Pointer} {pre mid post : List UInt8}
    (h : p.bytes 0 (pre ++ (mid ++ post)).length = pre ++ (mid ++ post)) :
    p.bytes pre.length mid.length = mid := by
  have hwindow := p.bytes_window 0 (pre ++ (mid ++ post)).length pre.length mid.length
  have hlen : min mid.length ((pre ++ (mid ++ post)).length - pre.length) = mid.length := by
    rw [length_append, length_append]
    omega
  rw [h, drop_left, take_left, zero_add, hlen] at hwindow
  exact hwindow.symm

def Pointer.IsCString (p : Pointer) (off : Nat) (s : List UInt8) : Prop :=
  p.bytes off (s.length + 1) = s ++ [0] ∧ 0 ∉ s

def Pointer.u32 (p : Pointer) (off : Nat) : UInt32 :=
  UInt32.ofNat (Lib.leNat (p.bytes off 4))

def Pointer.write (p : Pointer) (off : Nat) (bs : List UInt8) : Pointer := fun i =>
  if off ≤ i ∧ i < off + bs.length then bs.getD (i - off) 0 else p i

theorem Pointer.bytes_write (p : Pointer) (len : Nat) (bs : List UInt8) :
    (p.write len bs).bytes 0 (len + bs.length) = p.bytes 0 len ++ bs := by
  refine ext_getElem (by simp [Pointer.length_bytes]) fun i h1 h2 => ?_
  rw [Pointer.length_bytes] at h1
  simp only [Pointer.bytes, Pointer.write, getElem_map, getElem_range, zero_add,
    getElem_append, length_map, length_range]
  by_cases h : i < len
  · rw [if_neg (by omega), dif_pos h]
  · rw [if_pos (by omega), dif_neg h, getD_eq_getElem?_getD,
      getElem?_eq_getElem (by omega), Option.getD_some]

theorem Pointer.bytes_write_self (p : Pointer) (off : Nat) (bs : List UInt8) :
    (p.write off bs).bytes off bs.length = bs := by
  refine ext_getElem (Pointer.length_bytes ..) fun i h1 h2 => ?_
  simp only [Pointer.bytes, Pointer.write, getElem_map, getElem_range]
  rw [if_pos (by omega), Nat.add_sub_cancel_left, getD_eq_getElem?_getD,
    getElem?_eq_getElem h2, Option.getD_some]

def pointerTo (bs : List UInt8) : Pointer := fun i => bs.getD i 0

theorem bytes_pointerTo (bs : List UInt8) : (pointerTo bs).bytes 0 bs.length = bs := by
  refine ext_getElem (Pointer.length_bytes ..) fun i h1 h2 => ?_
  simp [Pointer.bytes, pointerTo, h2]

end AlJefra.Hal
