import EightBit.Proofs.Progress
set_option autoImplicit false

/-!
# Records that differ in stale cells only

A record is used for one instruction after the other and its buffer is never cleared, so two records of
the same instruction can hold different bytes behind the fetched ones.  Two records agree when they
differ in nothing else.  Under the laws of the instruction set agreement is kept by each byte taken:
nothing that a call answers or writes into the record comes from a stale cell.
-/

namespace EightBit

variable {μ : Type}

/-- The two records differ in stale cells only. -/
structure Record.Agrees (r q : Record μ) : Prop where
  phase_eq : r.phase = q.phase
  address_eq : r.address = q.address
  target_eq : r.target = q.target
  required_eq : r.required = q.required
  mode_eq : r.mode = q.mode
  fetched_eq : r.buffer.fetched = q.buffer.fetched
  text_eq : r.text = q.text

/-- The two calls answered alike and left records that agree. -/
structure Response.Agrees (x y : Response μ Bool) : Prop where
  result_eq : x.result = y.result
  notices_eq : x.notices = y.notices
  record : x.record.Agrees y.record

namespace Record.Agrees

variable {r q : Record μ}

theorem count_eq (h : r.Agrees q) : r.count = q.count := by
  simp only [Record.count, Buffer.count, h.fetched_eq]

theorem agreeBelow (h : r.Agrees q) : AgreeBelow r.count r.buffer.code q.buffer.code :=
  Buffer.agreeBelow_of_fetched_eq h.fetched_eq

theorem fullText_eq (h : r.Agrees q) : r.fullText = q.fullText := by
  simp only [fullText, h.target_eq, h.text_eq]

end Record.Agrees

namespace InstructionSet

variable {s : InstructionSet μ} {longest opening : Nat} {r q r' : Record μ} {address byte : Int}

namespace Lawful

/-! ## One step -/

theorem layout_agrees (law : s.Lawful longest opening) (h : r.Agrees q) (hpos : 0 < r.count) :
    s.layout r.buffer.code r.count = s.layout q.buffer.code q.count := by
  rw [← h.count_eq]
  exact law.layout_congr r.buffer q.buffer r.count hpos h.agreeBelow

theorem measure_agrees_none (law : s.Lawful longest opening) (h : r.Agrees q) (hpos : 0 < r.count)
    (hmeasure : s.measure r = .ok none) : s.measure q = .ok none := by
  obtain ⟨hrequired, hlayout⟩ := measure_eq_none_iff.mp hmeasure
  rw [h.required_eq] at hrequired
  rw [law.layout_agrees h hpos] at hlayout
  exact measure_eq_none_iff.mpr ⟨hrequired, hlayout⟩

theorem measure_agrees_some (law : s.Lawful longest opening) (h : r.Agrees q) (hpos : 0 < r.count)
    (hmeasure : s.measure r = .ok (some r')) : ∃ q', s.measure q = .ok (some q') ∧ r'.Agrees q' := by
  rcases measure_eq_some_iff.mp hmeasure with ⟨hrequired, mode, length, hlayout, rfl⟩ | ⟨hrequired, rfl⟩
  · rw [h.required_eq] at hrequired
    rw [law.layout_agrees h hpos] at hlayout
    refine ⟨_, measure_eq_some_iff.mpr (.inl ⟨hrequired, mode, length, hlayout, rfl⟩), ?_⟩
    exact ⟨h.phase_eq, h.address_eq, h.target_eq, rfl, rfl, h.fetched_eq, h.text_eq⟩
  · rw [h.required_eq] at hrequired
    exact ⟨q, measure_eq_some_iff.mpr (.inr ⟨hrequired, rfl⟩), h⟩

/-- Records that agree and have all their bytes are completed alike. -/
theorem complete_agrees (law : s.Lawful longest opening) (hsettled : s.Settled r)
    (hcount : (r.count : Int) = r.required) (h : r.Agrees q) :
    ∃ r' q', s.complete r = .ok r' ∧ s.complete q = .ok q' ∧ r'.phase = .complete ∧ r'.Agrees q' := by
  obtain ⟨shown, hshown, -⟩ := law.render_ok r hsettled hcount
  have hshown' : s.render q = .ok shown := by
    rw [← hshown]
    exact (law.render_congr r q hsettled hcount h.address_eq h.mode_eq h.required_eq h.fetched_eq).symm
  simp only [complete, hshown, hshown', ok_bind, pure_eq_ok]
  refine ⟨_, _, rfl, rfl, rfl, ?_⟩
  cases htarget : shown.target with
  | none => exact ⟨rfl, h.address_eq, h.target_eq, h.required_eq, h.mode_eq, h.fetched_eq, rfl⟩
  | some target => exact ⟨rfl, h.address_eq, rfl, h.required_eq, h.mode_eq, h.fetched_eq, rfl⟩

/-- Asking about a fetched byte keeps agreement. -/
theorem step_agrees (law : s.Lawful longest opening) (hready : s.Ready r) (h : r.Agrees q) :
    (s.step r).Agrees (s.step q) := by
  have hpos := hready.count_pos
  have hpos' : 0 < q.count := h.count_eq ▸ hpos
  have hphase := hready.phase_eq
  have hphase' : q.phase = .fetching := h.phase_eq ▸ hphase
  rcases law.measure_cases hready with ⟨hmeasure, -⟩ | ⟨m, hmeasure, hm, hsettled, hle⟩
  · have hmeasure' := law.measure_agrees_none h hpos hmeasure
    rw [step_of_fetching hphase (advance_of_open hphase hpos hmeasure) hphase,
      step_of_fetching hphase' (advance_of_open hphase' hpos' hmeasure') hphase']
    exact ⟨rfl, rfl, h⟩
  · obtain ⟨m', hmeasure', hagrees⟩ := law.measure_agrees_some h hpos hmeasure
    have hadvance := advance_of_measured hphase hpos hmeasure
    have hadvance' := advance_of_measured hphase' hpos' hmeasure'
    rw [← hagrees.count_eq, ← hagrees.required_eq] at hadvance'
    by_cases hcount : (m.count : Int) = m.required
    · obtain ⟨d, d', hcomplete, hcomplete', hdone, hagrees'⟩ := law.complete_agrees hsettled hcount hagrees
      have hdone' : d'.phase = .complete := hagrees'.phase_eq ▸ hdone
      rw [if_pos hcount, hcomplete] at hadvance
      rw [if_pos hcount, hcomplete'] at hadvance'
      rw [step_of_complete hphase hadvance hdone, step_of_complete hphase' hadvance' hdone',
        hagrees'.fullText_eq]
      exact ⟨rfl, rfl, hagrees'.phase_eq, hagrees'.address_eq, hagrees'.target_eq, hagrees'.required_eq,
        hagrees'.mode_eq, hagrees'.fetched_eq, rfl⟩
    · have hfetching : m.phase = .fetching := hm.phase_eq.trans hphase
      have hfetching' : m'.phase = .fetching := hagrees.phase_eq ▸ hfetching
      rw [if_neg hcount] at hadvance hadvance'
      rw [step_of_fetching hphase hadvance hfetching, step_of_fetching hphase' hadvance' hfetching']
      exact ⟨rfl, rfl, hagrees⟩

/-! ## The calls that take a byte -/

/-- Opening an instruction forgets what the record held. -/
theorem start_agrees (law : s.Lawful longest opening) (hr : r.phase ≠ .fetching)
    (hq : q.phase ≠ .fetching) (haddress : InRange address) (hbyte : IsByte byte) :
    (s.start r address byte).Agrees (s.start q address byte) := by
  obtain ⟨c, hfetched, hstart⟩ := s.start_eq_step hr haddress hbyte
  obtain ⟨d, hfetched', hstart'⟩ := s.start_eq_step hq haddress hbyte
  rw [hstart, hstart']
  refine law.step_agrees (ready_clear hfetched) ?_
  exact ⟨rfl, rfl, rfl, rfl, rfl, hfetched.trans hfetched'.symm, rfl⟩

theorem next_agrees (law : s.Lawful longest opening) (hr : s.Underway r) (h : r.Agrees q)
    (hbyte : IsByte byte) : (s.next r byte).Agrees (s.next q byte) := by
  have hroom := law.room hr
  have hroom' : q.count < 8 := h.count_eq ▸ hroom
  obtain ⟨c, hpush, hnext⟩ := s.next_eq_step hr.phase_eq hroom hbyte
  obtain ⟨d, hpush', hnext'⟩ := s.next_eq_step (h.phase_eq ▸ hr.phase_eq) hroom' hbyte
  have hfetched : c.fetched = d.fetched := by
    rw [Buffer.fetched_of_push? hpush, Buffer.fetched_of_push? hpush', h.fetched_eq]
  rw [hnext, hnext']
  refine law.step_agrees (law.ready_push hr hpush) ?_
  exact ⟨h.phase_eq, h.address_eq, h.target_eq, h.required_eq, h.mode_eq, hfetched, h.text_eq⟩

end Lawful

end InstructionSet

end EightBit
