/-
The manifest and the driver loop of `kernel/ai_bootstrap.c`, with the returns before the loop. Each
driver is loaded on the device it was fetched for exactly if, where the loop is reached, no device
whose driver is fetched has one with its ids before it in the list.
-/
import Mathlib.Data.List.Basic
import AlJefra.Hal.Memory

namespace AlJefra.Kernel.Bootstrap

open AlJefra.Hal List Option

structure Device where
  vendorId : UInt16
  deviceId : UInt16
  classCode : UInt8
  subclass : UInt8
  deriving DecidableEq, Repr

structure ManifestEntry extends Device where
  hasDriver : Bool

structure Load where
  entry : Nat
  data : List UInt8
  target : Option Nat
  deriving DecidableEq

structure Registry where
  storage : Bool
  network : Bool
  display : Bool
  input : Bool

def deviceHasDriver (drivers : Registry) (dev : Device) : Bool :=
  match dev.classCode with
  | 0x01 => drivers.storage
  | 0x02 => drivers.network
  | 0x03 => drivers.display
  | 0x0C => drivers.input
  | _ => false

def SameIds (d e : Device) : Prop := d.vendorId = e.vendorId ∧ d.deviceId = e.deviceId

instance (d e : Device) : Decidable (SameIds d e) := inferInstanceAs (Decidable (_ ∧ _))

/-- What the store answers; `fetch i` is the answer of `marketplace_get_driver` for entry `i`. -/
structure StoreAnswers where
  connect : HalStatus
  sendManifest : HalStatus
  fetch : Nat → Option (List UInt8)

section Loop

variable (drivers : Registry) (devices : List Device)

def buildManifest : List ManifestEntry :=
  (devices.take 256).map fun d => { d with hasDriver := deviceHasDriver drivers d }

-- Setting `has_driver` after a load changes only the entry the loop has passed.
def driverRound (fetch : Nat → Option (List UInt8)) (i : Nat) : Option Load := do
  let e ← (buildManifest drivers devices)[i]?
  if e.hasDriver then none
  else
    let data ← fetch i
    some ⟨i, data, devices.findIdx? fun d => SameIds d e.toDevice⟩

def driverLoop (fetch : Nat → Option (List UInt8)) : List Load :=
  (range (buildManifest drivers devices).length).filterMap (driverRound drivers devices fetch)

def aiBootstrap (store : StoreAnswers) : HalStatus × List Load :=
  let needDrivers := (buildManifest drivers devices).countP fun e => !e.hasDriver
  if ¬ drivers.network then (.noDevice, [])
  else if store.connect ≠ .ok then (store.connect, [])
  else if needDrivers = 0 then (.ok, [])
  else if store.sendManifest ≠ .ok then (store.sendManifest, [])
  else (.ok, driverLoop drivers devices store.fetch)

end Loop

variable {drivers : Registry} {devices : List Device} {fetch : Nat → Option (List UInt8)}

theorem driverRound_some_iff {i : Nat} {l : Load} :
    driverRound drivers devices fetch i = some l ↔ ∃ d data, i < 256 ∧ devices[i]? = some d ∧
      deviceHasDriver drivers d = false ∧ fetch i = some data ∧
      l = ⟨i, data, devices.findIdx? fun d' => SameIds d' d⟩ := by
  simp only [driverRound, buildManifest, getElem?_map, getElem?_take, bind_eq_bind,
    bind_eq_some_iff, map_eq_some_iff, ite_none_right_eq_some, ite_none_left_eq_some]
  grind

theorem mem_driverLoop {l : Load} : l ∈ driverLoop drivers devices fetch ↔
    ∃ i d data, i < 256 ∧ devices[i]? = some d ∧ deviceHasDriver drivers d = false ∧
      fetch i = some data ∧ l = ⟨i, data, devices.findIdx? fun d' => SameIds d' d⟩ := by
  simp only [driverLoop, mem_filterMap, driverRound_some_iff, mem_range]
  refine exists_congr fun i => and_iff_right_of_imp ?_
  rintro ⟨d, data, hi, hd, -⟩
  simp only [buildManifest, length_map, length_take]
  have hlt := (List.getElem?_eq_some_iff.mp hd).1
  omega

theorem pairwise_entry :
    (driverLoop drivers devices fetch).Pairwise fun a b => a.entry < b.entry := by
  refine pairwise_filterMap.mpr (pairwise_lt_range.imp fun hij a ha b hb => ?_)
  obtain ⟨d, data, -, -, -, -, rfl⟩ := driverRound_some_iff.mp ha
  obtain ⟨d, data, -, -, -, -, rfl⟩ := driverRound_some_iff.mp hb
  exact hij

theorem target_eq_entry_iff {i : Nat} {d : Device} (hd : devices[i]? = some d) :
    (devices.findIdx? fun d' => SameIds d' d) = some i ↔ ∀ d' ∈ devices.take i, ¬ SameIds d' d := by
  obtain ⟨hi, rfl⟩ := List.getElem?_eq_some_iff.mp hd
  simp only [findIdx?_eq_some_iff_getElem, mem_take_iff_getElem, decide_eq_true_eq]
  constructor
  · rintro ⟨_, -, hfirst⟩ d' ⟨j, hj, rfl⟩
    exact hfirst j (by omega)
  · intro h
    exact ⟨hi, ⟨rfl, rfl⟩, fun j hj => h _ ⟨j, by omega, rfl⟩⟩

theorem aiBootstrap_loads (store : StoreAnswers) : (aiBootstrap drivers devices store).2 =
    if drivers.network = true ∧ store.connect = .ok ∧ store.sendManifest = .ok then
      driverLoop drivers devices store.fetch
    else [] := by
  have hidle : (buildManifest drivers devices).countP (fun e => !e.hasDriver) = 0 →
      driverLoop drivers devices store.fetch = [] := by
    intro hneed
    refine eq_nil_iff_forall_not_mem.mpr fun l hl => ?_
    obtain ⟨i, d, data, hi, hd, hdriver, -⟩ := mem_driverLoop.mp hl
    have hentry := countP_eq_zero.mp hneed { d with hasDriver := deviceHasDriver drivers d }
      (mem_map.mpr ⟨d, mem_take_iff_getElem.mpr ?_, rfl⟩)
    · simp [hdriver] at hentry
    · obtain ⟨hlt, rfl⟩ := List.getElem?_eq_some_iff.mp hd
      exact ⟨i, by omega, rfl⟩
  unfold aiBootstrap
  grind

/-- Each download is loaded on its own device, and on no other, exactly when no device whose driver
is fetched has one with its ids before it. -/
theorem aiBootstrap_binds_iff (drivers : Registry) (devices : List Device) (store : StoreAnswers) :
    ((∀ l ∈ (aiBootstrap drivers devices store).2, l.target = some l.entry) ∧
      (aiBootstrap drivers devices store).2.Pairwise fun a b => a.target ≠ b.target) ↔
    (drivers.network = true → store.connect = .ok → store.sendManifest = .ok →
      ∀ i d, i < 256 → devices[i]? = some d → deviceHasDriver drivers d = false →
        (store.fetch i).isSome → ∀ d' ∈ devices.take i, ¬ SameIds d' d) := by
  rw [aiBootstrap_loads]
  split
  · next hreached =>
    rw [and_iff_left_of_imp]
    · simp only [hreached.1, hreached.2.1, hreached.2.2, forall_const, mem_driverLoop]
      constructor
      · intro h i d hi hd hdriver hfetch
        obtain ⟨data, hdata⟩ := Option.isSome_iff_exists.mp hfetch
        exact (target_eq_entry_iff hd).mp (h _ ⟨i, d, data, hi, hd, hdriver, hdata, rfl⟩)
      · rintro h _ ⟨i, d, data, hi, hd, hdriver, hdata, rfl⟩
        exact (target_eq_entry_iff hd).mpr (h i d hi hd hdriver (by rw [hdata]; rfl))
    · -- the loads come from different entries
      intro h
      refine pairwise_entry.imp_of_mem fun ha hb hab => ?_
      rw [h _ ha, h _ hb]
      exact fun heq => (Nat.ne_of_lt hab) (Option.some.inj heq)
  · next hreached =>
    refine iff_of_true ⟨by simp, Pairwise.nil⟩ fun hnet hconnect hsend => ?_
    exact absurd ⟨hnet, hconnect, hsend⟩ hreached

theorem aiBootstrap_twins :
    (aiBootstrap ⟨false, true, true, true⟩ [⟨0x8086, 0x2922, 1, 6⟩, ⟨0x8086, 0x2922, 1, 6⟩]
      ⟨.ok, .ok, fun _ => some []⟩).2 = [⟨0, [], some 0⟩, ⟨1, [], some 0⟩] := by
  decide

end AlJefra.Kernel.Bootstrap
