/-
The request of `vblk_do_io` in `drivers/storage/virtio_blk.c`. The page of the request header is not
modelled: after a timeout it may be the page of an earlier status byte, which a late completion
still writes.
-/
import AlJefra.Storage.Nvme

namespace AlJefra.Storage.VirtioBlk

open AlJefra.Hal

structure Request where
  type : Nat
  sector : Nat
  addr : Nat
  len : Nat
  deviceWrites : Bool
  deriving DecidableEq, Repr

def requestType : Op → Nat
  | .read => 0
  | .write => 1

def buildRequest (op : Op) (sector : UInt64) (count : UInt32) (bufPhys : UInt64) : Request where
  type := requestType op
  sector := sector.toNat
  addr := bufPhys.toNat
  len := (count * 512).toNat
  deviceWrites := decide (op = .read)

structure VirtioBlkDev where
  initialized : Bool
  readonly : Bool

variable {σ : Type} (dev : VirtioBlkDev) (io : σ → Request → σ × HalStatus)

def vblkDoIo (op : Op) (s : σ) (sector : UInt64) (count : UInt32) (bufPhys : UInt64) :
    σ × HalStatus :=
  if !dev.initialized then (s, .error)
  else if op = .write ∧ dev.readonly then (s, .notSupported)
  else io s (buildRequest op sector count bufPhys)

def virtioBlkDrvRw (op : Op) (s : σ) (buf lba : UInt64) (count : UInt32) : σ × Int :=
  drvResult count (vblkDoIo dev io op s lba count buf)

end AlJefra.Storage.VirtioBlk
