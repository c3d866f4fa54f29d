/-
Every completion is consumed once and in order, for both queues and every controller, exactly if the
depth `CAP.MQES + 1` does not wrap to 0.
-/
import AlJefra.Storage.NvmeQueue

namespace AlJefra.Storage

open AlJefra.Hal List Option
open AlJefra.Lib

/-! ## The invariant -/

structure Linked (consumed : List CqEntry) (p : QueuePair) : Prop where
  depth_pos : 0 < p.q.depth
  size_eq : p.dev.size = p.q.depth
  ring : RingHolds CqEntry.phase p.q.depth p.dev.cq p.dev.posted
  tail_eq : p.dev.tail = p.dev.posted.length % p.q.depth
  phase_eq : p.dev.phase = phaseOf p.q.depth p.dev.posted.length
  head_eq : p.q.cqHead = consumed.length % p.q.depth
  cqPhase_eq : p.q.cqPhase = phaseOf p.q.depth consumed.length
  doorbell_eq : p.dev.headDoorbell = p.q.cqHead
  split : ∃ pending, p.dev.posted = consumed ++ pending
  room : p.dev.posted.length < consumed.length + p.q.depth

variable {consumed : List CqEntry} {p : QueuePair}

theorem phase_entry (c : Completion) (phase : Bool) : (c.entry phase).phase = phase := by
  cases phase <;> simp only [CqEntry.phase, Completion.entry, UInt16.toNat_ofNat', Bool.toNat_true,
      Bool.toNat_false, beq_iff_eq, beq_eq_false_iff_ne] <;>
    omega

theorem Linked.channel (h : Linked consumed p) :
    Channel CqEntry.phase p.q.depth p.dev.cq p.dev.posted p.dev.tail p.dev.phase consumed.length
      p.q.cqHead p.q.cqPhase where
  size_pos := h.depth_pos
  ring := h.ring
  tail_eq := h.tail_eq
  phase_eq := h.phase_eq
  head_eq := h.head_eq
  headPhase_eq := h.cqPhase_eq
  consumed_le := by
    obtain ⟨pending, hsplit⟩ := h.split
    rw [hsplit, length_append]
    omega
  room := h.room

theorem linked_of_channel (hsize : p.dev.size = p.q.depth)
    (hdoorbell : p.dev.headDoorbell = p.q.cqHead)
    (hsplit : ∃ pending, p.dev.posted = consumed ++ pending)
    (h : Channel CqEntry.phase p.q.depth p.dev.cq p.dev.posted p.dev.tail p.dev.phase
      consumed.length p.q.cqHead p.q.cqPhase) : Linked consumed p :=
  ⟨h.size_pos, hsize, h.ring, h.tail_eq, h.phase_eq, h.head_eq, h.headPhase_eq, hdoorbell, hsplit,
    h.room⟩

theorem Linked.post (h : Linked consumed p) (c : Completion) :
    Linked consumed { p with dev := p.dev.post c } := by
  unfold CqDevice.post
  split
  · exact h
  · next hfull =>
    have hroom : (p.dev.tail + 1) % p.q.depth ≠ p.q.cqHead := by
      simpa [CqDevice.full, h.size_eq, h.doorbell_eq] using hfull
    obtain ⟨pending, hsplit⟩ := h.split
    refine linked_of_channel h.size_eq h.doorbell_eq ⟨pending ++ [c.entry p.dev.phase], ?_⟩ ?_
    · simp only [hsplit, append_assoc]
    · simp only [h.size_eq]
      exact h.channel.post hroom (phase_entry c p.dev.phase)

theorem Linked.postAll (h : Linked consumed p) (completions : List Completion) :
    Linked consumed (p.postAll completions) := by
  induction completions generalizing p with
  | nil => exact h
  | cons c completions ih => exact ih (h.post c)

/-! ## Rounds -/

theorem pollRound_of_pending (h : Linked consumed p) {cqe : CqEntry} {pending : List CqEntry}
    (hposted : p.dev.posted = consumed ++ cqe :: pending) :
    ∃ p', pollRound p = some (p', some cqe) ∧ Linked (consumed ++ [cqe]) p' ∧
      p'.dev.posted = p.dev.posted := by
  have hlt : consumed.length < p.dev.posted.length := by
    rw [hposted, length_append, List.length_cons]
    omega
  have hget : p.dev.posted[consumed.length]? = some cqe := by
    rw [hposted, getElem?_append_right (Nat.le_refl _), Nat.sub_self, getElem?_cons_zero]
  have hcell : p.dev.cq p.q.cqHead = cqe := h.channel.cell_eq hget
  have hnew : cqe.phase = p.q.cqPhase := by
    rw [← hcell]
    exact h.channel.isNew_iff.mpr hlt
  have hround : pollRound p = some
      ({ q := { p.q with
            cqHead := (p.q.cqHead + 1) % p.q.depth
            cqPhase := if (p.q.cqHead + 1) % p.q.depth = 0 then !p.q.cqPhase else p.q.cqPhase }
         dev := { p.dev with headDoorbell := (p.q.cqHead + 1) % p.q.depth } }, some cqe) := by
    simp only [pollRound, hcell]
    rw [if_pos hnew, if_neg (Nat.ne_of_gt h.depth_pos)]
  refine ⟨_, hround, linked_of_channel h.size_eq rfl ⟨pending, by simp [hposted]⟩ ?_, rfl⟩
  rw [length_append, length_singleton]
  exact h.channel.consume hlt

theorem pollRound_of_idle (h : Linked consumed p) (hposted : p.dev.posted = consumed) :
    pollRound p = some (p, none) := by
  have hold : ¬ (p.dev.cq p.q.cqHead).phase = p.q.cqPhase := by
    rw [h.channel.isNew_iff, hposted]
    exact Nat.lt_irrefl _
  simp only [pollRound]
  rw [if_neg hold]

/-! ## Polls and commands -/

def OwnCompletion (cid : UInt16) (r : PollResult) : Prop :=
  r.status = .ok → ∃ others own, r.consumed = others ++ [own] ∧ own.cid = cid ∧ own.statusCode = 0

theorem nvmePollCompletion_linked (cid : UInt16) (ticks : List Tick) (h : Linked consumed p) :
    ∃ p' r, nvmePollCompletion cid p ticks = some (p', r) ∧ Linked (consumed ++ r.consumed) p' ∧
      OwnCompletion cid r := by
  induction ticks generalizing p consumed with
  | nil => exact ⟨p, ⟨.timeout, []⟩, rfl, by simpa using h, by intro hok; cases hok⟩
  | cons tick ticks ih =>
    have hposted := h.postAll tick.completions
    rw [nvmePollCompletion]
    generalize p.postAll tick.completions = s at hposted ⊢
    cases tick.expired with
    | true => exact ⟨s, ⟨.timeout, []⟩, rfl, by simpa using hposted, by intro hok; cases hok⟩
    | false =>
      obtain ⟨pending, hsplit⟩ := hposted.split
      cases pending with
      | nil =>
        have hidle := pollRound_of_idle hposted (by simpa using hsplit)
        obtain ⟨p', r, hpoll, hlinked, hown⟩ := ih hposted
        exact ⟨p', r, by simp only [hidle, hpoll, Bool.false_eq_true, if_false], hlinked, hown⟩
      | cons cqe pending =>
        obtain ⟨s', hround, hlinked', -⟩ := pollRound_of_pending hposted hsplit
        simp only [hround, Bool.false_eq_true, if_false]
        by_cases hcid : cqe.cid = cid
        · rw [if_pos hcid]
          refine ⟨s', _, rfl, hlinked', ?_⟩
          intro hok
          refine ⟨[], cqe, rfl, hcid, ?_⟩
          by_contra hcode
          simp [hcode] at hok
        · rw [if_neg hcid]
          obtain ⟨p', r, hpoll, hlinked, hown⟩ := ih hlinked'
          refine ⟨p', ⟨r.status, cqe :: r.consumed⟩, by rw [hpoll]; rfl, by simpa using hlinked, ?_⟩
          intro hok
          obtain ⟨others, own, hconsumed, hrest⟩ := hown hok
          exact ⟨cqe :: others, own, by simp only [hconsumed, List.cons_append], hrest⟩

theorem nvmeCmd_linked (cmd : SqEntry) (ticks : List Tick) (h : Linked consumed p) :
    ∃ p' r, nvmeCmd p cmd ticks = some (p', r) ∧ Linked (consumed ++ r.consumed) p' ∧
      OwnCompletion r.cid ⟨r.status, r.consumed⟩ := by
  have hpos := Nat.ne_of_gt h.depth_pos
  have hsubmit : Linked consumed { p with q := { p.q with
      sq := setCell p.q.sq p.q.sqTail (cmd, p.q.cidCounter)
      sqTail := (p.q.sqTail + 1) % p.q.depth
      sqDoorbell := (p.q.sqTail + 1) % p.q.depth
      cidCounter := p.q.cidCounter + 1 } } :=
    ⟨h.depth_pos, h.size_eq, h.ring, h.tail_eq, h.phase_eq, h.head_eq, h.cqPhase_eq, h.doorbell_eq,
      h.split, h.room⟩
  obtain ⟨p', r, hpoll, hlinked, hown⟩ := nvmePollCompletion_linked p.q.cidCounter ticks hsubmit
  refine ⟨p', ⟨p.q.cidCounter, r.status, r.consumed⟩, ?_, hlinked, hown⟩
  simp only [nvmeCmd, nvmeSubmitCmd, if_neg hpos, bind_some, hpoll, map_some]

theorem nvmeCmds_linked (cmds : List (SqEntry × List Tick)) (h : Linked consumed p) :
    ∃ p' results, nvmeCmds p cmds = some (p', results) ∧
      Linked (consumed ++ results.flatMap CommandResult.consumed) p' ∧
      ∀ r ∈ results, OwnCompletion r.cid ⟨r.status, r.consumed⟩ := by
  induction cmds generalizing p consumed with
  | nil => exact ⟨p, [], rfl, by simpa using h, by simp⟩
  | cons op cmds ih =>
    obtain ⟨p', r, hcmd, hlinked, hown⟩ := nvmeCmd_linked op.1 op.2 h
    obtain ⟨p'', results, hcmds, hlinked', howns⟩ := ih hlinked
    refine ⟨p'', r :: results, ?_, ?_, ?_⟩
    · rw [nvmeCmds, hcmd, bind_some, hcmds, map_some]
    · rw [flatMap_cons, ← append_assoc]
      exact hlinked'
    · exact forall_mem_cons.mpr ⟨hown, howns⟩

/-! ## The queue of a controller -/

/-- No index modulo zero; entries are consumed once and in order; `HAL_OK` means the command's own
completion with status 0. -/
def Disciplined (p₀ : QueuePair) (cmds : List (SqEntry × List Tick)) : Prop :=
  ∃ p results, nvmeCmds p₀ cmds = some (p, results) ∧
    (∃ pending, p.dev.posted = results.flatMap CommandResult.consumed ++ pending ∧
      (pollRound p).map Prod.snd = some pending.head?) ∧
    ∀ r ∈ results, OwnCompletion r.cid ⟨r.status, r.consumed⟩

theorem disciplined_of_linked (h : Linked [] p) (cmds : List (SqEntry × List Tick)) :
    Disciplined p cmds := by
  obtain ⟨p', results, hcmds, hlinked, howns⟩ := nvmeCmds_linked cmds h
  obtain ⟨pending, hsplit⟩ := hlinked.split
  refine ⟨p', results, hcmds, ⟨pending, hsplit, ?_⟩, howns⟩
  cases pending with
  | nil => rw [pollRound_of_idle hlinked (by simpa using hsplit)]; rfl
  | cons cqe pending =>
    obtain ⟨p'', hround, -⟩ := pollRound_of_pending hlinked hsplit
    rw [hround]
    rfl

theorem linked_alloc {depth : Nat} (hdepth : 0 < depth)
    (h : nvmeAllocQueue depth true true = .ok p) : Linked [] p := by
  obtain rfl := (Except.ok.inj h).symm
  exact linked_of_channel rfl rfl ⟨[], rfl⟩ (Channel.nil hdepth fun _ => rfl)

theorem queueDepth_eq_zero_iff (kind : QueueKind) (mqes : UInt16) :
    queueDepth kind mqes = 0 ↔ mqes = 0xFFFF := by
  have hmax : 0 < kind.maxDepth := by cases kind <;> decide
  have hlt := mqes.toNat_lt
  have hsum : (mqes + 1).toNat = (mqes.toNat + 1) % 2 ^ 16 := UInt16.toNat_add mqes 1
  rw [queueDepth, ← UInt16.toNat_inj, hsum]
  have hlit : (0xFFFF : UInt16).toNat = 65535 := rfl
  omega

/-- The queues behave exactly if `CAP.MQES` is not 0xFFFF or there is no
memory for them. -/
theorem nvmeCmds_disciplined_iff (kind : QueueKind) (mqes : UInt16) (sqMem cqMem : Bool) :
    (∀ p, nvmeAllocQueue (queueDepth kind mqes) sqMem cqMem = .ok p →
      ∀ cmds, Disciplined p cmds) ↔
    mqes ≠ 0xFFFF ∨ sqMem = false ∨ cqMem = false := by
  constructor
  · intro h
    by_contra hnot
    simp only [not_or, not_not, Bool.not_eq_false] at hnot
    obtain ⟨hmqes, rfl, rfl⟩ := hnot
    have hdepth := (queueDepth_eq_zero_iff kind mqes).mpr hmqes
    obtain ⟨p, results, hcmds, -⟩ := h _ rfl [(⟨0, 0, 0, 0, 0, 0, 0⟩, [])]
    simp [nvmeCmds, nvmeCmd, nvmeSubmitCmd, hdepth] at hcmds
  · intro h p halloc cmds
    cases sqMem with
    | false => cases halloc
    | true =>
      cases cqMem with
      | false => cases halloc
      | true =>
        have hmqes : mqes ≠ 0xFFFF := by simpa using h
        have hdepth := Nat.pos_of_ne_zero (mt (queueDepth_eq_zero_iff kind mqes).mp hmqes)
        exact disciplined_of_linked (linked_alloc hdepth halloc) cmds

/-- With queues of 65536 entries the first command computes an index modulo zero. -/
theorem nvmeCmd_modulo_zero :
    ∃ p, nvmeAllocQueue (queueDepth .admin 0xFFFF) true true = .ok p ∧
      nvmeCmd p ⟨6, 0, 0, 0, 1, 0, 0⟩ [] = none :=
  ⟨_, rfl, rfl⟩

end AlJefra.Storage
