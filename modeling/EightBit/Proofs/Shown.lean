import EightBit.Proofs.Feeding
set_option autoImplicit false

/-!
# The text of a complete instruction

An instruction is completed by the step that its last byte leads to.  From then on the record holds what
the instruction set shows for this very record: the text with the address it refers to behind it, cut to
the longest text, and the address (`exists_shown`).
-/

namespace EightBit

/-- The text of a rendering with the address that it refers to. -/
def Rendering.display (shown : Rendering) : Text :=
  match shown.target with
  | some target => .ofChars (shown.text ++ targetSuffix (wrap16 target))
  | none => .ofChars shown.text

theorem Rendering.display_of_none {shown : Rendering} (h : shown.target = none) :
    shown.display = .ofChars shown.text := by
  rw [display, h]

theorem Rendering.display_of_some {shown : Rendering} {target : Int} (h : shown.target = some target) :
    shown.display = Text.ofChars shown.text ++ Text.ofChars (targetSuffix (wrap16 target)) := by
  rw [display, h]
  exact Text.ofChars_append _ _

namespace InstructionSet

variable {μ : Type}

/-- The record holds the text and the target of what the instruction set shows for it. -/
structure Shown (s : InstructionSet μ) (r : Record μ) (shown : Rendering) : Prop where
  settled : s.Settled r
  count_eq : (r.count : Int) = r.required
  render_eq : s.render r = .ok shown
  text_eq : r.text = (bounded shown.display).1
  target_eq : r.target = shown.target.map wrap16

variable {s : InstructionSet μ} {longest opening : Nat} {r : Record μ} {address : Int}
  {bytes : List UInt8} {k n : Nat}

/-- A record without a target is completed with the text and the target of its rendering. -/
theorem complete_of_render {shown : Rendering} (hshown : s.render r = .ok shown) (htarget : r.target = none) :
    s.complete r = .ok { r with
      phase := .complete, text := .ofChars shown.text, target := shown.target.map wrap16 } := by
  cases hrefers : shown.target with
  | none => simp [complete, hshown, hrefers, Record.finish, htarget]
  | some target => simp [complete, hshown, hrefers, Record.finish, Record.resolve]

theorem fullText_eq_display {shown : Rendering} (htext : r.text = .ofChars shown.text)
    (htarget : r.target = shown.target.map wrap16) : r.fullText = shown.display := by
  rw [Record.fullText, Rendering.display, htext, htarget]
  cases shown.target with
  | none => rfl
  | some target => simp

namespace Lawful

/-- A step leaves the instruction open, or it completes it with what the instruction set shows for it. -/
theorem step_cases (law : s.Lawful longest opening) (h : s.Ready r) :
    ((s.step r).record.phase = .fetching ∧ (s.step r).notices = []) ∨
    ∃ shown, s.Shown (s.step r).record shown ∧ (s.step r).notices = (bounded shown.display).2 := by
  have hpos := h.count_pos
  have hphase := h.phase_eq
  rcases law.measure_cases h with ⟨hmeasure, -⟩ | ⟨q, hmeasure, hq, hsettled, -⟩
  · rw [step_of_fetching hphase (advance_of_open hphase hpos hmeasure) hphase]
    exact .inl ⟨hphase, rfl⟩
  · have hadvance := advance_of_measured hphase hpos hmeasure
    by_cases hcount : (q.count : Int) = q.required
    · obtain ⟨shown, hshown, -⟩ := law.render_ok q hsettled hcount
      have htarget : q.target = none := hq.target_eq.trans h.target_eq
      rw [if_pos hcount, complete_of_render hshown htarget] at hadvance
      rw [step_of_complete hphase hadvance rfl, fullText_eq_display rfl rfl]
      refine .inr ⟨shown, ⟨hsettled, hcount, ?_, rfl, rfl⟩, rfl⟩
      -- Neither the text nor the target of the record is looked at when it is shown.
      rw [← hshown]
      symm
      apply law.render_congr q _ hsettled hcount <;> rfl
    · have hfetching : q.phase = .fetching := hq.phase_eq.trans hphase
      rw [if_neg hcount] at hadvance
      rw [step_of_fetching hphase hadvance hfetching]
      exact .inl ⟨hfetching, rfl⟩

/-- A step that completes an instruction leaves what the instruction set shows for it. -/
theorem step_shown (law : s.Lawful longest opening) (h : s.Ready r)
    (hcomplete : (s.step r).record.phase = .complete) : ∃ shown, s.Shown (s.step r).record shown := by
  rcases law.step_cases h with ⟨hfetching, -⟩ | ⟨shown, hshown, -⟩
  · rw [hfetching] at hcomplete
    cases hcomplete
  · exact ⟨shown, hshown⟩

/-- Each byte of an instruction leads to one step of a record that is ready for it. -/
theorem feed_eq_step (law : s.Lawful longest opening) (hr : r.phase ≠ .fetching) (haddress : InRange address)
    (hpos : 0 < k) (hk : k ≤ bytes.length) (hbelow : s.FetchingBelow r address bytes k) :
    ∃ q, s.Ready q ∧ s.feed r address (bytes.take k) = s.step q := by
  cases k with
  | zero => cases hpos
  | succ k =>
      rcases Nat.eq_zero_or_pos k with rfl | hpos'
      · obtain ⟨first, rest, rfl⟩ := List.exists_cons_of_ne_nil (List.ne_nil_of_length_pos hk)
        obtain ⟨c, hfetched, hstart⟩ := s.start_eq_step hr haddress (isByte_toNat first)
        exact ⟨_, ready_clear hfetched, hstart⟩
      · have haccepted := law.feed_accepted hr haddress hpos' (Nat.le_of_lt hk) (hbelow.mono (Nat.le_succ k))
        have hunderway := haccepted.underway (hbelow k (Nat.lt_succ_self k) hpos')
        obtain ⟨c, hpush, hnext⟩ :=
          s.next_eq_step hunderway.phase_eq (law.room hunderway) (isByte_toNat bytes[k])
        rw [feed_take_succ s r address hpos' hk]
        exact ⟨_, law.ready_push hunderway hpush, hnext⟩

/-- A complete instruction holds what the instruction set shows for it. -/
theorem exists_shown (law : s.Lawful longest opening) (hr : r.phase ≠ .fetching) (haddress : InRange address)
    (h : s.CompletesAfter r address bytes n) :
    ∃ shown, s.Shown (s.feed r address (bytes.take n)).record shown := by
  obtain ⟨q, hready, hfeed⟩ := law.feed_eq_step hr haddress h.pos h.le_length h.fetching
  have hcomplete := h.complete
  rw [hfeed] at hcomplete ⊢
  exact law.step_shown hready hcomplete

end Lawful

end InstructionSet

end EightBit
