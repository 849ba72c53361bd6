import Solovey.Operations.Gate

/-!
# Who holds the gate of a process

A manager with an active operation owns the gate of its process in every run in which no call
releases the gate under an operation.
-/

namespace Solovey.Operations

open Solovey.Text Solovey.Data List

/-! ## Runs -/

/-- Whether the instruction may release a gate. -/
def Code.releases : Code → Bool
  | .releaseGate _ | .clearActive _ | .unlock _ _ => true
  | _ => false

/-- Whether another call of the manager than the `i`-th one relies on the gate. -/
def OthersRely (s : State) (i manager : ℕ) : Prop :=
  ∃ j thread, j ≠ i ∧ s.threads[j]? = some thread ∧ thread.manager = manager ∧ thread.code.Records

/-- Whether the action does not release a gate under an operation. -/
def GateKept (s : State) : Action → Prop
  | .call _ _ => True
  | .run i _ => ∀ thread, s.threads[i]? = some thread →
    (s.fields thread.manager).ownsGate = true →
    ¬thread.code.GivesAway (s.fields thread.manager) (OthersRely s i thread.manager)

section

variable (config : ℕ → Config)

structure GateInvariant (s : State) : Prop where
  locked : ∀ manager, (s.fields manager).ownsGate = true →
    s.gates (config manager).process = true
  exclusive : ∀ manager other, (config manager).process = (config other).process →
    (s.fields manager).ownsGate = true → (s.fields other).ownsGate = true → manager = other
  recorded : ∀ manager, (s.fields manager).active ≠ none → (s.fields manager).ownsGate = true
  relied : ∀ thread ∈ s.threads, thread.code.Records →
    (s.fields thread.manager).ownsGate = true
  sound : ∀ thread ∈ s.threads, thread.code.Sound

end

variable {config : ℕ → Config}

variable {s : State}

theorem GateInvariant.call (hs : GateInvariant config s) (m : ℕ) (method : Method) :
    GateInvariant config { s with
      threads := s.threads ++ [⟨m, method.code (config m)⟩] } := by
  have hq := method.code_quiet (config m)
  refine ⟨hs.locked, hs.exclusive, hs.recorded, ?_, ?_⟩
  · intro t ht hr
    rcases mem_append.mp ht with ho | hn
    · exact hs.relied t ho hr
    · rw [mem_singleton.mp hn] at hr
      exact absurd hr hq.records
  · intro t ht
    rcases mem_append.mp ht with ho | hn
    · exact hs.sound t ho
    · rw [mem_singleton.mp hn]
      exact hq.sound

/-- The gates after an instruction: owners hold the gate of their process, one at a time. -/
theorem GateInvariant.owners (hs : GateInvariant config s) {m : ℕ} {v : View}
    (he : GateEffect (s.view config m) v) {ts : List Thread} :
    (∀ mn, ((s.put config m v ts).fields mn).ownsGate = true →
      (s.put config m v ts).gates (config mn).process = true) ∧
    ∀ mn other, (config mn).process = (config other).process →
      ((s.put config m v ts).fields mn).ownsGate = true →
      ((s.put config m v ts).fields other).ownsGate = true → mn = other := by
  simp only [State.put, Function.update_apply]
  cases he with
  | kept hg hon =>
    have hfl : ∀ mn, (if mn = m then v.fields else s.fields mn).ownsGate =
        (s.fields mn).ownsGate := by
      intro mn
      split
      next heq => rw [hon, heq]; rfl
      · rfl
    refine ⟨fun mn hown => ?_, fun mn other hsm hown hot => ?_⟩
    · rw [hfl] at hown
      split
      next heq => rw [hg, ← hs.locked mn hown, heq]; rfl
      · exact hs.locked mn hown
    · rw [hfl] at hown hot
      exact hs.exclusive mn other hsm hown hot
  | taken hf hg hon =>
    have hn : ∀ mn, (config mn).process = (config m).process →
        (s.fields mn).ownsGate = true → False := by
      intro mn hsm hown
      have hl := hs.locked mn hown
      rw [hsm] at hl
      exact Bool.false_ne_true (hf.symm.trans hl)
    refine ⟨fun mn hown => ?_, fun mn other hsm hown hot => ?_⟩
    · split
      · exact hg
      next hp =>
        rw [if_neg fun heq => hp (by rw [heq])] at hown
        exact hs.locked mn hown
    · split at hown
      next hm =>
        split at hot
        next ho => rw [hm, ho]
        · exact (hn other (by rw [← hsm, hm]) hot).elim
      next hm =>
        split at hot
        next ho => exact (hn mn (by rw [hsm, ho]) hown).elim
        · exact hs.exclusive mn other hsm hown hot
  | given how hon =>
    refine ⟨fun mn hown => ?_, fun mn other hsm hown hot => ?_⟩
    · split at hown
      · rw [hon] at hown
        cases hown
      next hm =>
        rw [if_neg fun heq => hm (hs.exclusive mn m heq hown how)]
        exact hs.locked mn hown
    · split at hown
      · rw [hon] at hown
        cases hown
      · split at hot
        · rw [hon] at hot
          cases hot
        · exact hs.exclusive mn other hsm hown hot

theorem GateInvariant.run (hs : GateInvariant config s) {i : ℕ} {t : Thread} {v : View} {c : Code}
    (ht : s.threads[i]? = some t) (hrn : Ran (s.view config t.manager) t.code v c)
    (hk : (s.fields t.manager).ownsGate = true →
      ¬t.code.GivesAway (s.fields t.manager) (OthersRely s i t.manager)) :
    GateInvariant config (s.put config t.manager v (s.threads.set i { t with code := c })) := by
  have hmm : t ∈ s.threads := mem_of_getElem? ht
  have hb : (s.fields t.manager).active ≠ none ∨ t.code.Records ∨
      OthersRely s i t.manager → (s.fields t.manager).ownsGate = true := by
    rintro (ha | hr | ⟨j, other, _, ho, hsm, hr⟩)
    · exact hs.recorded _ ha
    · exact hs.relied t hmm hr
    · exact hsm ▸ hs.relied other (mem_of_getElem? ho) hr
  obtain ⟨hrl, hsn⟩ := hrn.relied (hs.sound t hmm) hb hk
  obtain ⟨hl, he⟩ := hs.owners hrn.gateEffect
  refine ⟨hl, he, fun m ha => ?_, fun other ho hr => ?_, fun other ho => ?_⟩
  · simp only [State.put, Function.update_apply] at ha ⊢
    by_cases hm : m = t.manager
    · rw [if_pos hm] at ha ⊢
      exact hrl (.inl ha)
    · rw [if_neg hm] at ha ⊢
      exact hs.recorded m ha
  · simp only [State.put, Function.update_apply]
    rcases mem_set_threads ho with rfl | ⟨j, hne, hj⟩
    · rw [if_pos rfl]
      exact hrl (.inr (.inl hr))
    · split
      next heq => exact hrl (.inr (.inr ⟨j, other, hne, hj, heq, hr⟩))
      · exact hs.relied other (mem_of_getElem? hj) hr
  · rcases mem_set_threads ho with rfl | ⟨j, _, hj⟩
    · exact hsn
    · exact hs.sound other (mem_of_getElem? hj)

theorem GateInvariant.new : GateInvariant config .new := by
  refine ⟨?_, ?_, ?_, ?_, ?_⟩ <;> simp [State.new, Fields.new]

theorem GateInvariant.step {t : State} {a : Action} (hs : GateInvariant config s)
    (hk : GateKept s a) (h : step config s a = some t) : GateInvariant config t := by
  rcases step_cases h with ⟨m, method, rfl, rfl⟩ | ⟨i, input, thread, view, code, rfl, ht, hr, rfl⟩
  · exact hs.call m method
  · exact hs.run ht (Code.ran hr) (hk thread ht)

/-- Whether the action runs no instruction that may release a gate. -/
def holdsGates (s : State) : Action → Bool
  | .call _ _ => true
  | .run i _ => s.threads[i]?.all fun thread => !thread.code.releases

theorem gateKept_of_holdsGates (s : State) (a : Action) (h : holdsGates s a = true) :
    GateKept s a := by
  cases a with
  | call => trivial
  | run i ip =>
    intro t ht _ hg
    have hr : t.code.releases = false := by simpa [holdsGates, ht] using h
    cases hc : t.code with
    | releaseGate | clearActive | unlock => simp [hc, Code.releases] at hr
    | _ => exact (hc ▸ hg : Code.GivesAway _ _ _)

/-- In every run in which no call releases the gate under an operation, a manager with an active
operation owns the gate of its process, and no other manager of the process has an active
operation. -/
theorem active_owns_gate {s : State} (h : ((system config).guarded GateKept).Reachable s)
    {manager : ℕ} (hactive : (s.fields manager).active ≠ none) :
    (s.fields manager).ownsGate = true ∧
      ∀ other, (config other).process = (config manager).process →
        (s.fields other).active ≠ none → other = manager := by
  have hs : GateInvariant config s := by
    refine h.invariant ?_ ?_
    · rintro _ rfl
      exact .new
    · rintro s a t hs ⟨hk, hst⟩
      exact hs.step hk hst
  refine ⟨hs.recorded manager hactive, fun other hsm ho => ?_⟩
  exact hs.exclusive other manager hsm (hs.recorded other ho) (hs.recorded manager hactive)

/-- An acquisition is admitted and becomes the active operation of the manager that owns the gate. -/
theorem active_owns_gate_acquired :
    ∃ s, ((system sampleConfig).guarded GateKept).Reachable s ∧ (s.fields 0).active ≠ none ∧
      (s.fields 0).ownsGate = true := by
  obtain ⟨s, hs, ha⟩ : ∃ s, (sampleAcquire (sampleRequest ['k'])).foldlM
      (fun s a => if holdsGates s a then step sampleConfig s a else none) .new = some s ∧
      (s.fields 0).active.isSome = true := ⟨_, rfl, rfl⟩
  have hr := System.reachable_guarded_of_foldlM gateKept_of_holdsGates hs
  have hsm := Option.isSome_iff_ne_none.mp ha
  exact ⟨s, hr, hsm, (active_owns_gate hr hsm).1⟩

/-- Two acquisitions pass the gate of one manager: the second one is refused by the store and
releases the gate, and the first one becomes active without it. -/
theorem active_without_gate :
    ∃ s, (system sampleConfig).Reachable s ∧ (s.fields 0).active ≠ none ∧
      (s.fields 0).ownsGate = false := by
  obtain ⟨s, hs, hl⟩ : ∃ s, [Action.call 0 (.acquire (sampleRequest ['a'])),
      .call 0 (.acquire (sampleRequest ['b'])), .run 0 .go, .run 1 .go, .run 0 .go, .run 1 .go,
      .run 0 (.time 5), .run 0 (.fresh ['o']), .run 0 .go, .run 1 (.time 5), .run 1 (.fresh ['p']),
      .run 1 .go, .run 1 .go, .run 0 .go].foldlM (step sampleConfig) .new = some s ∧
      (s.fields 0).active.isSome = true ∧ (s.fields 0).ownsGate = false := ⟨_, rfl, rfl, rfl⟩
  exact ⟨s, System.reachable_of_foldlM hs, Option.isSome_iff_ne_none.mp hl.1, hl.2⟩

end Solovey.Operations
