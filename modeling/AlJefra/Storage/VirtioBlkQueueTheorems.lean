/-
Who owns the descriptors, and whose completion a call reports. A call that returns `HAL_OK` saw its
own completion; descriptors stay owned while every earlier request is complete.
-/
import Mathlib.Data.List.Nodup
import AlJefra.Lib.Threaded
import AlJefra.Storage.VirtioBlkQueue

namespace AlJefra.Storage.VirtioBlk

open AlJefra.Arch.Aarch64 (aarch64Dma)
open AlJefra.Hal List Option
open AlJefra.Lib
open VblkState (boot step)

variable {δ : Type}

/-! ## The free list -/

def link (desc : Nat → VirtqDesc) (i : Nat) : Option Nat :=
  if (desc i).hasNext then some (desc i).next else none

def freeList (vq : Virtqueue) : List Nat := walk (link vq.desc) (vq.size + 1) vq.freeHead
def Virtqueue.Free (vq : Virtqueue) (l : List Nat) : Prop := Threaded (link vq.desc) vq.freeHead l

variable {a b c i j : Nat} {vq : Virtqueue} {l : List Nat} {P : VblkState δ → Prop}
  {s : VblkState δ} {σ : Type} {dev : VirtioBlkDev} {op : Op}

theorem link_setCell_of_ne {desc : Nat → VirtqDesc} (d : VirtqDesc) (h : j ≠ i) :
    link (setCell desc i d) j = link desc j := by
  rw [link, link, setCell, if_neg h]

theorem vblkSetupVq_free {qsize : UInt16} (h : vblkSetupVq qsize = some vq) :
    vq.Free (range vq.size) := by
  rw [vblkSetupVq] at h
  split at h
  · cases h
  · next hne =>
    have hpos : 0 < qsize.toNat := by
      rcases Nat.eq_zero_or_pos qsize.toNat with hzero | hpos
      · exact absurd (UInt16.toNat_inj.mp hzero) hne
      · exact hpos
    simp only [some.injEq] at h
    subst h
    generalize hsize : (if qsize.toNat > virtioBlkQueueSize then virtioBlkQueueSize
      else qsize.toNat) = size
    have hsize0 : 0 < size := by
      rw [← hsize, virtioBlkQueueSize]
      split <;> omega
    obtain ⟨n, rfl⟩ : ∃ n, size = n + 1 := ⟨size - 1, by omega⟩
    rw [range_eq_range']
    refine threaded_range' n 0 ?_ ?_
    · intro i _ hi
      simp [link, freshDesc, show i < n by omega, VirtqDesc.hasNext, vringDescFNext]
    · simp [link, freshDesc, VirtqDesc.hasNext]

theorem vblkAllocDesc_of_free (h : vq.Free (a :: b :: l)) (ha : a < vq.size) :
    vblkAllocDesc vq = (some a, { vq with freeHead := b }) ∧
      Virtqueue.Free { vq with freeHead := b } (b :: l) := by
  have hhead : vq.freeHead = a := Threaded.head h
  obtain ⟨hlink, htail⟩ := Threaded.tail h
  refine ⟨?_, htail⟩
  rw [link] at hlink
  split at hlink
  · rw [vblkAllocDesc, if_neg (by omega), some.inj hlink, hhead]
  · cases hlink

theorem Virtqueue.Free.pushFree (h : vq.Free l) (hi : i ∉ l) : (vq.pushFree i).Free (i :: l) := by
  refine .cons (b := vq.freeHead) ?_ ?_
  · simp [link, Virtqueue.pushFree, Virtqueue.setDesc, setCell, VirtqDesc.hasNext, vringDescFNext]
  · refine Threaded.congr h fun j hj => ?_
    exact link_setCell_of_ne _ fun hji => hi (hji ▸ hj)

theorem pushFree_desc_of_ne (vq : Virtqueue) (h : j ≠ i) :
    (vq.pushFree i).desc j = vq.desc j := if_neg h

theorem vblkFreeDescChain_three (hab : b ≠ a) (hac : c ≠ a) (hbc : c ≠ b)
    (ha : link vq.desc a = some b) (hb : link vq.desc b = some c) (hc : link vq.desc c = none) :
    vblkFreeDescChain 2 vq a = ((vq.pushFree a).pushFree b).pushFree c := by
  have hnext : ∀ {d : VirtqDesc} {j : Nat}, (if d.hasNext then some d.next else none) = some j →
      d.hasNext = true ∧ d.next = j := by
    intro d j h
    split at h
    · next hd => exact ⟨hd, some.inj h⟩
    · cases h
  obtain ⟨haNext, rfl⟩ := hnext ha
  obtain ⟨hbNext, rfl⟩ := hnext hb
  rw [vblkFreeDescChain, if_pos haNext, vblkFreeDescChain, pushFree_desc_of_ne _ hab,
    if_pos hbNext, vblkFreeDescChain]

/-! ## Waiting -/

structure Kept (P : VblkState δ → Prop) : Prop where
  complete : ∀ s e, P s → P (s.complete e)
  used : ∀ s idx, P s → P { s with vq := { s.vq with lastUsedIdx := idx } }

theorem Kept.and {Q : VblkState δ → Prop} (hP : Kept P) (hQ : Kept Q) :
    Kept fun s => P s ∧ Q s where
  complete s e h := ⟨hP.complete s e h.1, hQ.complete s e h.2⟩
  used s idx h := ⟨hP.used s idx h.1, hQ.used s idx h.2⟩

theorem Kept.events (h : Kept P) (events : List Completion) (s : VblkState δ) (hs : P s) :
    P (run VblkState.complete s events) :=
  run_invariant h.complete events s hs

theorem Kept.poll (h : Kept P) (rounds : List (List Completion)) :
    ∀ s, P s → P (poll s rounds) := by
  induction rounds with
  | nil => exact fun _ hs => hs
  | cons events rounds ih =>
    intro s hs
    have hrun := h.events events s hs
    rw [VirtioBlk.poll]
    split
    · exact h.used _ _ hrun
    · exact ih _ hrun

theorem Kept.finish (h : Kept P) (D : Dma δ) (env : CallEnv) (hs : P s)
    (dHdr hdrPhys statusPhys : Nat) :
    ∃ t, P t ∧ (finish D env s dHdr hdrPhys statusPhys).1 = release D t dHdr hdrPhys statusPhys ∧
      ((finish D env s dHdr hdrPhys statusPhys).2 = .ok → t.status statusPhys = 0) := by
  have hcheck := h.events env.beforeCheck _ (h.poll env.rounds s hs)
  simp only [VirtioBlk.finish]
  split
  · exact ⟨_, hcheck, rfl, fun hok => by cases hok⟩
  · refine ⟨_, h.events env.beforeStatus _ hcheck, rfl, fun hok => ?_⟩
    split at hok
    · assumption
    · cases hok

def VblkState.table (s : VblkState δ) :
    Nat × (Nat → VirtqDesc) × Nat × δ × List Submission × Nat :=
  (s.vq.size, s.vq.desc, s.vq.freeHead, s.dma, s.submissions, s.nextId)

theorem kept_table (s : VblkState δ) : Kept fun t => t.table = s.table where
  complete t e ht := by
    rw [VblkState.complete]
    split <;> exact ht
  used _ _ ht := ht

/-! ## Descriptors and their owners -/

def Submission.Exclusive (sub : Submission) : Prop :=
  sub.descs.Nodup ∧ ∀ d ∈ sub.descs, d ∉ sub.owned

instance (sub : Submission) : Decidable sub.Exclusive := inferInstanceAs (Decidable (_ ∧ _))

structure DescriptorsOwned (s : VblkState δ) : Prop where
  exclusive : ∀ sub ∈ s.submissions, sub.Exclusive
  freeOnce : ∀ d < s.vq.size, d ∉ s.owned → (freeList s.vq).count d = 1

structure AllFree (s : VblkState δ) : Prop where
  exclusive : ∀ sub ∈ s.submissions, sub.Exclusive
  free : ∃ l, s.vq.Free l ∧ l.Perm (List.range s.vq.size)

theorem AllFree.descriptorsOwned (h : AllFree s) : DescriptorsOwned s := by
  refine ⟨h.exclusive, fun d hd _ => ?_⟩
  obtain ⟨l, hfree, hperm⟩ := h.free
  have hlen : l.length = s.vq.size := by rw [hperm.length_eq, length_range]
  rw [freeList, Threaded.walk_eq hfree _ (by omega), hperm.count_eq]
  exact count_eq_one_of_mem nodup_range (mem_range.mpr hd)

theorem AllFree.of_table {t : VblkState δ} (h : AllFree s) (ht : t.table = s.table) :
    AllFree t := by
  simp only [VblkState.table, Prod.mk.injEq] at ht
  obtain ⟨hsize, hdesc, hhead, -, hsub, -⟩ := ht
  obtain ⟨l, hfree, hperm⟩ := h.free
  rw [Virtqueue.Free, ← hdesc, ← hhead] at hfree
  rw [← hsize] at hperm
  exact ⟨hsub ▸ h.exclusive, l, hfree, hperm⟩

def VirtioBlkDev.Accepts (dev : VirtioBlkDev) (op : Op) : Prop :=
  dev.initialized = true ∧ ¬ (op = .write ∧ dev.readonly = true)

instance (dev : VirtioBlkDev) (op : Op) : Decidable (dev.Accepts op) :=
  inferInstanceAs (Decidable (_ ∧ _))

theorem vblkDoIo_of_accepts (h : dev.Accepts op) (io : σ → Request → σ × HalStatus) (s : σ)
    (sector : UInt64) (count : UInt32) (bufPhys : UInt64) :
    vblkDoIo dev io op s sector count bufPhys = io s (buildRequest op sector count bufPhys) := by
  rw [vblkDoIo, h.1, if_neg (by decide), if_neg h.2]

theorem vblkDoIo_of_not_accepts (h : ¬ dev.Accepts op) (io : σ → Request → σ × HalStatus) (s : σ)
    (sector : UInt64) (count : UInt32) (bufPhys : UInt64) :
    ∃ st, st ≠ HalStatus.ok ∧ vblkDoIo dev io op s sector count bufPhys = (s, st) := by
  rw [vblkDoIo]
  split
  · exact ⟨.error, by decide, rfl⟩
  · next hinit =>
    split
    · exact ⟨.notSupported, by decide, rfl⟩
    · next hro => exact absurd ⟨by simpa using hinit, hro⟩ h

structure Ready (D : Dma δ) (s : VblkState δ) : Prop where
  spare : 4 ≤ s.vq.size
  idle : s.pending = []
  header : (D.alloc s.dma 16).1.isSome
  status : (D.alloc (D.alloc s.dma 16).2 1).1.isSome

def MadeWhenReady (dev : VirtioBlkDev) (D : Dma δ) (s : VblkState δ) : VblkOp → Prop
  | .io op _ _ _ _ => dev.Accepts op → Ready D s
  | .device _ => True

theorem link_chainDescs (vq : Virtqueue) (hab : b ≠ a) (hac : c ≠ a) (hbc : c ≠ b)
    (hdrPhys statusPhys : Nat) (req : Request) :
    link (chainDescs vq a b c hdrPhys statusPhys req).desc a = some b ∧
      link (chainDescs vq a b c hdrPhys statusPhys req).desc b = some c ∧
      link (chainDescs vq a b c hdrPhys statusPhys req).desc c = none := by
  refine ⟨?_, ?_, ?_⟩
  · simp [link, chainDescs, Virtqueue.setDesc, setCell, hab.symm, hac.symm, VirtqDesc.hasNext,
      vringDescFNext]
  · by_cases hwrites : req.deviceWrites <;>
      simp [link, chainDescs, Virtqueue.setDesc, setCell, hbc.symm, VirtqDesc.hasNext,
        vringDescFNext, vringDescFWrite, hwrites]
  · simp [link, chainDescs, Virtqueue.setDesc, setCell, VirtqDesc.hasNext, vringDescFWrite]

theorem link_chainDescs_of_ne (vq : Virtqueue) (ha : i ≠ a) (hb : i ≠ b) (hc : i ≠ c)
    (hdrPhys statusPhys : Nat) (req : Request) :
    link (chainDescs vq a b c hdrPhys statusPhys req).desc i = link vq.desc i := by
  simp only [chainDescs, Virtqueue.setDesc]
  rw [link_setCell_of_ne _ hc, link_setCell_of_ne _ hb, link_setCell_of_ne _ ha]

theorem free_chain_back {vq' : Virtqueue} (hnodup : (a :: b :: c :: l).Nodup) (hfree : vq.Free l)
    {hdrPhys statusPhys : Nat} {req : Request}
    (hdesc : vq'.desc = (chainDescs vq a b c hdrPhys statusPhys req).desc)
    (hhead : vq'.freeHead = vq.freeHead) :
    (vblkFreeDescChain 2 vq' a).Free (c :: b :: a :: l) ∧
      (vblkFreeDescChain 2 vq' a).size = vq'.size := by
  simp only [nodup_cons, mem_cons, not_or] at hnodup
  obtain ⟨⟨hab, hac, hal⟩, ⟨hbc, hbl⟩, hcl, -⟩ := hnodup
  obtain ⟨ha, hb, hc⟩ :=
    link_chainDescs vq (Ne.symm hab) (Ne.symm hac) (Ne.symm hbc) hdrPhys statusPhys req
  rw [← hdesc] at ha hb hc
  have hrest : vq'.Free l := by
    rw [Virtqueue.Free, hhead, hdesc]
    refine Threaded.congr hfree fun i hi => ?_
    exact link_chainDescs_of_ne vq (ne_of_mem_of_not_mem hi hal) (ne_of_mem_of_not_mem hi hbl)
      (ne_of_mem_of_not_mem hi hcl) hdrPhys statusPhys req
  rw [vblkFreeDescChain_three (Ne.symm hab) (Ne.symm hac) (Ne.symm hbc) ha hb hc]
  refine ⟨((hrest.pushFree hal).pushFree ?_).pushFree ?_, rfl⟩
  · simp [hbl, Ne.symm hab]
  · simp [hcl, Ne.symm hac, Ne.symm hbc]

theorem vblkRequest_allFree (D : Dma δ) (env : CallEnv) (hs : AllFree s) (hready : Ready D s)
    (req : Request) : AllFree (vblkRequest D env s req).1 := by
  obtain ⟨l, hfree, hperm⟩ := hs.free
  have hlen : l.length = s.vq.size := by rw [hperm.length_eq, length_range]
  have hspare := hready.spare
  have hlt : ∀ i ∈ l, i < s.vq.size := fun i hi => mem_range.mp (hperm.mem_iff.mp hi)
  have hnodup : l.Nodup := hperm.nodup_iff.mpr nodup_range
  obtain ⟨a, b, c, d, rest, rfl⟩ : ∃ a b c d rest, l = a :: b :: c :: d :: rest := by
    rcases l with _ | ⟨a, _ | ⟨b, _ | ⟨c, _ | ⟨d, rest⟩⟩⟩⟩
    all_goals first
      | exact ⟨_, _, _, _, _, rfl⟩
      | (simp only [length_nil, length_cons] at hlen; omega)
  obtain ⟨hallocA, hfreeB⟩ := vblkAllocDesc_of_free hfree (hlt a (by simp))
  obtain ⟨hallocB, hfreeC⟩ := vblkAllocDesc_of_free hfreeB (hlt b (by simp))
  obtain ⟨hallocC, hfreeD⟩ := vblkAllocDesc_of_free hfreeC (hlt c (by simp))
  obtain ⟨hdrPhys, hhdr⟩ := isSome_iff_exists.mp hready.header
  obtain ⟨statusPhys, hstatus⟩ := isSome_iff_exists.mp hready.status
  simp only [vblkRequest, hallocA, hallocB, hallocC, hhdr, hstatus]
  generalize hsubmit : submit _ a b c hdrPhys statusPhys req = u
  obtain ⟨t, ht, hfinish, -⟩ := (kept_table u).finish D env rfl a hdrPhys statusPhys
  rw [hfinish]
  subst hsubmit
  simp only [VblkState.table, submit, Prod.mk.injEq] at ht
  obtain ⟨hsize, hdesc, hhead, -, hsub, -⟩ := ht
  obtain ⟨hback, hbackSize⟩ := free_chain_back hnodup hfreeD hdesc hhead
  refine ⟨?_, c :: b :: a :: d :: rest, hback, ?_⟩
  · intro sub hmem
    simp only [release, hsub, mem_append, mem_singleton] at hmem
    rcases hmem with hold | rfl
    · exact hs.exclusive sub hold
    · refine ⟨?_, ?_⟩
      · exact hnodup.sublist (by simp)
      · simp [VblkState.owned, hready.idle]
  · rw [release, hbackSize, hsize]
    refine List.Perm.trans ?_ hperm
    exact ((reverse_perm [a, b, c]).append_right (d :: rest))

theorem step_allFree (dev : VirtioBlkDev) (D : Dma δ) (hs : AllFree s) (op : VblkOp)
    (hop : MadeWhenReady dev D s op) : AllFree (s.step dev D op) := by
  cases op with
  | io op sector count bufPhys env =>
    by_cases haccepts : dev.Accepts op
    · rw [step, vblkDoIo_of_accepts haccepts]
      exact vblkRequest_allFree D env hs (hop haccepts) _
    · obtain ⟨st, -, heq⟩ :=
        vblkDoIo_of_not_accepts haccepts (vblkRequest D env) s sector count bufPhys
      rw [step, heq]
      exact hs
  | device events => exact hs.of_table ((kept_table s).events events s rfl)

/-- Where requests are made only when the queue is ready, every request has three descriptors to
itself and every other one is on the free list once. -/
theorem descriptorsOwned_of_ready (dev : VirtioBlkDev) (D : Dma δ) (qsize : UInt16)
    (vq : Virtqueue) (dma : δ) (ops : List VblkOp) (hvq : vblkSetupVq qsize = some vq)
    (hready : Steps (step dev D) (MadeWhenReady dev D) (boot vq dma) ops)
    (k : Nat) :
    DescriptorsOwned (run (step dev D) (boot vq dma) (ops.take k)) := by
  have hboot : AllFree (boot vq dma) :=
    ⟨by simp [boot], _, vblkSetupVq_free hvq, List.Perm.refl _⟩
  exact (run_invariant_of_steps (P := AllFree) (C := MadeWhenReady dev D)
    (fun s op hs hop => step_allFree dev D hs op hop) _ _ hboot
    (steps_take ops _ k hready)).descriptorsOwned

def eightDescs : Virtqueue := ⟨8, freshDesc 8, 0, 0, 0, fun _ => 0⟩
def plentyDma : Dma Unit := ⟨fun _ _ => (some 4096, ()), fun _ _ _ => ()⟩
def answered : VblkOp := .io .read 0 1 0 ⟨[[⟨0, 0⟩]], [], []⟩
def unanswered : VblkOp := .io .read 0 1 0 ⟨[[]], [], []⟩

theorem descriptorsOwned_two_reads :
    DescriptorsOwned (run (step ⟨true, false⟩ plentyDma)
      (boot eightDescs ()) ([answered, answered].take 2)) :=
  descriptorsOwned_of_ready ⟨true, false⟩ plentyDma 8 eightDescs () [answered, answered] rfl
    ⟨fun _ => ⟨by decide, rfl, rfl, rfl⟩, fun _ => ⟨by decide, rfl, rfl, rfl⟩, trivial⟩ 2

/-- The request after one that timed out takes the descriptors that the
device still has. -/
theorem timeout_shares_descriptors :
    vblkSetupVq 8 = some eightDescs ∧
    ¬ DescriptorsOwned (run (step ⟨true, false⟩ plentyDma)
      (boot eightDescs ()) [unanswered, unanswered]) := by
  refine ⟨rfl, fun h => ?_⟩
  exact absurd (h.exclusive ⟨[2, 1, 0], [0, 1, 2]⟩ (by decide)) (by decide)

/-! ## Whose completion -/

structure Numbered (bound : Nat) (s : VblkState δ) : Prop where
  pending : ∀ r ∈ s.pending, r.id < s.nextId ∧ r.statusAddr ≤ bound
  completed : ∀ p ∈ s.completed, p.1 < s.nextId

structure Awaits (id addr : Nat) (s : VblkState δ) : Prop where
  alone : ∀ r ∈ s.pending, r.statusAddr = addr → r.id = id
  answered : s.status addr = 0xFF ∨ (id, s.status addr) ∈ s.completed

theorem complete_pending_subset (s : VblkState δ) (e : Completion) :
    ∀ r ∈ (s.complete e).pending, r ∈ s.pending := by
  intro r hr
  rw [VblkState.complete] at hr
  split at hr
  · exact hr
  · exact mem_of_mem_eraseIdx hr

theorem complete_awaits {id addr : Nat} (s : VblkState δ) (e : Completion)
    (h : Awaits id addr s) : Awaits id addr (s.complete e) := by
  refine ⟨fun r hr => h.alone r (complete_pending_subset s e r hr), ?_⟩
  rw [VblkState.complete]
  split
  · exact h.answered
  · next r hr =>
    by_cases haddr : r.statusAddr = addr
    · -- the request that the call waits for
      have hid : r.id = id := h.alone r (mem_of_getElem? hr) haddr
      right
      simp [setCell, haddr, hid]
    · rcases h.answered with hwait | hdone
      · left
        simpa [setCell, Ne.symm haddr] using hwait
      · right
        simp [setCell, Ne.symm haddr, hdone]

theorem kept_awaits (id addr : Nat) : Kept fun s : VblkState δ => Awaits id addr s where
  complete := complete_awaits
  used _ _ h := ⟨h.alone, h.answered⟩

theorem complete_numbered {bound : Nat} (s : VblkState δ) (e : Completion)
    (h : Numbered bound s) : Numbered bound (s.complete e) := by
  rw [VblkState.complete]
  split
  · exact h
  · next r hr =>
    refine ⟨fun r' hr' => h.pending r' (mem_of_mem_eraseIdx hr'), fun p hp => ?_⟩
    rcases mem_append.mp hp with hold | hnew
    · exact h.completed p hold
    · rw [mem_singleton.mp hnew]
      exact (h.pending r (mem_of_getElem? hr)).1

theorem kept_numbered (bound : Nat) : Kept fun s : VblkState δ => Numbered bound s where
  complete := complete_numbered
  used _ _ h := ⟨h.pending, h.completed⟩

theorem halDmaAlloc_page (dmaNext : Nat) {size : Nat} (h : Arch.Aarch64.dmaAligned size = 4096) :
    aarch64Dma.alloc dmaNext size = (none, dmaNext) ∨
      aarch64Dma.alloc dmaNext size = (some dmaNext, dmaNext + 4096) := by
  simp only [aarch64Dma, Arch.Aarch64.halDmaAlloc, h]
  split
  · exact .inl rfl
  · exact .inr rfl

theorem vblkRequest_aarch64 (env : CallEnv) (s : VblkState Nat) (req : Request) :
    (∃ vq, (vblkRequest aarch64Dma env s req).1 = { s with vq := vq } ∧
      (vblkRequest aarch64Dma env s req).2 ≠ .ok) ∨
    ∃ vq a b c, vblkRequest aarch64Dma env s req =
      finish aarch64Dma env (submit { s with vq := vq, dma := s.dma + 4096 + 4096 } a b c s.dma
        (s.dma + 4096) req) a s.dma (s.dma + 4096) := by
  simp only [vblkRequest]
  split
  · next a b c _ _ _ =>
    rcases halDmaAlloc_page s.dma (show Arch.Aarch64.dmaAligned 16 = 4096 by decide)
      with hhdr | hhdr
    · exact .inl ⟨_, by simp [hhdr]; rfl, by simp [hhdr]⟩
    · rcases halDmaAlloc_page (s.dma + 4096) (show Arch.Aarch64.dmaAligned 1 = 4096 by decide)
        with hstat | hstat
      · have hback : aarch64Dma.free (s.dma + 4096) s.dma 16 = s.dma := by
          simp [aarch64Dma, Arch.Aarch64.halDmaFree, Arch.Aarch64.dmaAligned]
        exact .inl ⟨_, by simp [hhdr, hstat, hback]; rfl, by simp [hhdr, hstat]⟩
      · exact .inr ⟨_, a, b, c, by simp [hhdr, hstat]; rfl⟩
  · exact .inl ⟨_, rfl, by simp⟩

theorem submit_waits {s : VblkState Nat} (h : Numbered s.dma s) (vq : Virtqueue) (dma a b c : Nat)
    (hdrPhys : Nat) (req : Request) :
    Awaits s.nextId (s.dma + 4096)
        (submit { s with vq := vq, dma := dma } a b c hdrPhys (s.dma + 4096) req) ∧
      Numbered (s.dma + 4096)
        (submit { s with vq := vq, dma := dma } a b c hdrPhys (s.dma + 4096) req) := by
  refine ⟨⟨fun r hr haddr => ?_, .inl ?_⟩, ⟨fun r hr => ?_, fun p hp => ?_⟩⟩
  · rcases mem_append.mp hr with hold | hnew
    · have := (h.pending r hold).2
      omega
    · rw [mem_singleton.mp hnew]
  · simp [submit, setCell]
  · rcases mem_append.mp hr with hold | hnew
    · have := h.pending r hold
      exact ⟨Nat.lt_succ_of_lt this.1, by omega⟩
    · rw [mem_singleton.mp hnew]
      exact ⟨Nat.lt_succ_self _, Nat.le_refl _⟩
  · exact Nat.lt_succ_of_lt (h.completed p hp)

theorem vblkRequest_numbered (env : CallEnv) {s : VblkState Nat} (h : Numbered s.dma s)
    (req : Request) :
    Numbered (vblkRequest aarch64Dma env s req).1.dma (vblkRequest aarch64Dma env s req).1 := by
  rcases vblkRequest_aarch64 env s req with ⟨vq, heq, -⟩ | ⟨vq, a, b, c, heq⟩
  · rw [heq]
    exact ⟨h.pending, h.completed⟩
  · rw [heq]
    generalize hsubmit : submit _ a b c s.dma (s.dma + 4096) req = u
    have hu : Numbered (s.dma + 4096) u := hsubmit ▸ (submit_waits h vq _ a b c s.dma req).2
    have hdma : u.dma = s.dma + 4096 + 4096 := by rw [← hsubmit, submit]
    have hkept := (kept_numbered (s.dma + 4096)).and (kept_table u)
    obtain ⟨t, ⟨ht, htable⟩, hfinish, -⟩ :=
      hkept.finish aarch64Dma env ⟨hu, rfl⟩ a s.dma (s.dma + 4096)
    simp only [VblkState.table, Prod.mk.injEq] at htable
    have hafter : (release aarch64Dma t a s.dma (s.dma + 4096)).dma = s.dma + 4096 := by
      rw [release, htable.2.2.2.1, hdma]
      simp [aarch64Dma, Arch.Aarch64.halDmaFree, Arch.Aarch64.dmaAligned]
    rw [hfinish, hafter]
    exact ⟨ht.pending, ht.completed⟩

theorem step_numbered (dev : VirtioBlkDev) (s : VblkState Nat) (op : VblkOp)
    (h : Numbered s.dma s) :
    Numbered (s.step dev aarch64Dma op).dma (s.step dev aarch64Dma op) := by
  cases op with
  | io op sector count bufPhys env =>
    by_cases haccepts : dev.Accepts op
    · rw [step, vblkDoIo_of_accepts haccepts]
      exact vblkRequest_numbered env h _
    · obtain ⟨st, -, heq⟩ :=
        vblkDoIo_of_not_accepts haccepts (vblkRequest aarch64Dma env) s sector count bufPhys
      rw [step, heq]
      exact h
  | device events =>
    have htable := (kept_table s).events events s rfl
    simp only [VblkState.table, Prod.mk.injEq] at htable
    rw [step, htable.2.2.2.1]
    exact (kept_numbered s.dma).events events s h

theorem vblkRequest_ok (env : CallEnv) {s : VblkState Nat} (h : Numbered s.dma s) (req : Request)
    (hok : (vblkRequest aarch64Dma env s req).2 = .ok) :
    (s.nextId, 0) ∈ (vblkRequest aarch64Dma env s req).1.completed := by
  rcases vblkRequest_aarch64 env s req with ⟨vq, -, hne⟩ | ⟨vq, a, b, c, heq⟩
  · exact absurd hok hne
  · rw [heq] at hok ⊢
    obtain ⟨t, ht, hfinish, hzero⟩ := (kept_awaits s.nextId (s.dma + 4096)).finish aarch64Dma env
      (submit_waits h vq _ a b c s.dma req).1 a s.dma (s.dma + 4096)
    have hbyte := hzero hok
    rw [hfinish]
    rcases ht.answered with hwait | hdone
    · rw [hbyte] at hwait
      exact absurd hwait (by decide)
    · rwa [hbyte] at hdone

/-- After any calls and completions, a call that returns `HAL_OK` had its own request completed with
status OK while it ran. -/
theorem vblkDoIo_ok_own_completion (dev : VirtioBlkDev) (vq : Virtqueue) (dmaNext : Nat)
    (ops : List VblkOp) (op : Op) (sector : UInt64) (count : UInt32) (bufPhys : UInt64)
    (env : CallEnv) (s : VblkState Nat)
    (hs : s = run (step dev aarch64Dma) (boot vq dmaNext) ops)
    (hok : (vblkDoIo dev (vblkRequest aarch64Dma env) op s sector count bufPhys).2 = .ok) :
    (s.nextId, 0) ∈
        (vblkDoIo dev (vblkRequest aarch64Dma env) op s sector count bufPhys).1.completed ∧
      ∀ p ∈ s.completed, p.1 < s.nextId := by
  have hboot : Numbered dmaNext (boot vq dmaNext) :=
    ⟨by simp [boot], by simp [boot]⟩
  have hnum : Numbered s.dma s := by
    rw [hs]
    exact run_invariant (P := fun t => Numbered t.dma t) (step_numbered dev) ops
      (boot vq dmaNext) hboot
  refine ⟨?_, hnum.completed⟩
  by_cases haccepts : dev.Accepts op
  · rw [vblkDoIo_of_accepts haccepts] at hok ⊢
    exact vblkRequest_ok env hnum _ hok
  · obtain ⟨st, hne, heq⟩ :=
      vblkDoIo_of_not_accepts haccepts (vblkRequest aarch64Dma env) s sector count bufPhys
    rw [heq] at hok
    exact absurd hok hne

/-- A read that times out, and one that is answered after the late answer
to the first. -/
theorem vblkDoIo_ok_after_timeout :
    (1, 0) ∈ (vblkDoIo ⟨true, false⟩ (vblkRequest aarch64Dma ⟨[[⟨0, 1⟩, ⟨0, 0⟩]], [], []⟩) .read
      (run (step ⟨true, false⟩ aarch64Dma)
        (boot eightDescs Arch.Aarch64.dmaPoolBase) [unanswered]) 0 1 0).1.completed :=
  (vblkDoIo_ok_own_completion ⟨true, false⟩ eightDescs Arch.Aarch64.dmaPoolBase [unanswered] .read
    0 1 0 ⟨[[⟨0, 1⟩, ⟨0, 0⟩]], [], []⟩ _ rfl (by decide)).1

end AlJefra.Storage.VirtioBlk
