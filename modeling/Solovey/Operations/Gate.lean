import Solovey.Operations.System

/-!
# The gate of a process

A manager with an active operation owns the gate of its process, as long as no call gives the gate
away under another one. A call that has passed the gate and may still record its operation
(`Records`) relies on the gate too. Every method passes the gate, or looks at the active operation,
before it records one (`Sound`); but several paths release the gate without looking for such a call.
-/

namespace Solovey.Operations

open Solovey.Text Solovey.Data

/-! ## What a call relies on -/

/-- Whether the program can record an operation without passing the gate, or looking at the active
operation, before. -/
def Code.Records : Code → Prop
  | .setActive _ _ => True
  | .refresh _ _ next => next.Records
  | .markSuspect _ next => next.Records
  | .countFailure _ next => ∃ fields, (next fields).Records
  | .store _ next => ∃ reply, (next reply).Records
  | .clock next => ∃ now, (next now).Records
  | .newID next => ∃ operationID, (next operationID).Records
  | .ask next => ∃ answer, (next answer).Records
  | .done | .tryAcquireGate _ | .releaseGate _ | .clearActive _ | .unlock _ _ | .read _ => False

/-- The program records an operation only behind the gate: it does not after it has been refused, has
released the gate or has found no operation active. -/
def Code.Sound : Code → Prop
  | .done => True
  | .tryAcquireGate next => ¬(next false).Records ∧ ∀ entered, (next entered).Sound
  | .releaseGate next => ¬next.Records ∧ next.Sound
  | .setActive _ next => next.Sound
  | .clearActive next => ¬next.Records ∧ next.Sound
  | .unlock _ next => ¬next.Records ∧ next.Sound
  | .refresh _ _ next => next.Sound
  | .read next => ∀ fields, (fields.active = none → ¬(next fields).Records) ∧ (next fields).Sound
  | .markSuspect _ next => next.Sound
  | .countFailure _ next => ∀ fields, (next fields).Sound
  | .store _ next => ∀ reply, (next reply).Sound
  | .clock next => ∀ now, (next now).Sound
  | .newID next => ∀ operationID, (next operationID).Sound
  | .ask next => ∀ answer, (next answer).Sound

/-- A sound program that does not rely on the gate. -/
structure Code.Quiet (code : Code) : Prop where
  records : ¬code.Records
  sound : code.Sound

theorem quiet_done : Code.Quiet .done := ⟨fun h => h, trivial⟩

variable {next : Code}

theorem quiet_releaseGate (h : next.Quiet) : Code.Quiet (.releaseGate next) :=
  ⟨fun h => h, h.records, h.sound⟩

theorem quiet_clearActive (h : next.Quiet) : Code.Quiet (.clearActive next) :=
  ⟨fun h => h, h.records, h.sound⟩

variable {operationID : Str}

theorem quiet_markSuspect (h : next.Quiet) :
    Code.Quiet (.markSuspect operationID next) := ⟨h.records, h.sound⟩

theorem quiet_read {next : Fields → Code}
    (h : ∀ fields, (fields.active = none → ¬(next fields).Records) ∧ (next fields).Sound) :
    Code.Quiet (.read next) := ⟨fun h => h, h⟩

theorem quiet_read_any {next : Fields → Code} (h : ∀ fields, (next fields).Quiet) :
    Code.Quiet (.read next) :=
  quiet_read fun fields => ⟨fun _ => (h fields).records, (h fields).sound⟩

theorem quiet_tryAcquireGate {next : Bool → Code} (hf : (next false).Quiet)
    (ht : (next true).Sound) :
    Code.Quiet (.tryAcquireGate next) := by
  refine ⟨fun h => h, hf.records, fun entered => ?_⟩
  cases entered with
  | false => exact hf.sound
  | true => exact ht

theorem quiet_store {c : Call} {next : Except StoreError c.Reply → Code}
    (h : ∀ reply, (next reply).Quiet) : Code.Quiet (.store c next) :=
  ⟨fun ⟨reply, hr⟩ => (h reply).records hr, fun reply => (h reply).sound⟩

theorem quiet_reply {c : Call} {next : Except StoreError c.Reply → Code}
    (he : ∀ error, (next (.error error)).Quiet) (hok : ∀ reply, (next (.ok reply)).Quiet) :
    Code.Quiet (.store c next) := by
  refine quiet_store fun reply => ?_
  rcases reply with error | reply
  · exact he error
  · exact hok reply

theorem quiet_clock {next : ℤ → Code} (h : ∀ now, (next now).Quiet) : Code.Quiet (.clock next) :=
  ⟨fun ⟨now, hr⟩ => (h now).records hr, fun now => (h now).sound⟩

theorem quiet_ask {next : Answer → Code} (h : ∀ answer, (next answer).Quiet) :
    Code.Quiet (.ask next) :=
  ⟨fun ⟨answer, hr⟩ => (h answer).records hr, fun answer => (h answer).sound⟩

theorem quiet_countFailure {next : Fields → Code} (h : ∀ fields, (next fields).Quiet) :
    Code.Quiet (.countFailure operationID next) :=
  ⟨fun ⟨fields, hr⟩ => (h fields).records hr, fun fields => (h fields).sound⟩

theorem quiet_ite {p : Prop} [Decidable p] {ys no : Code} (hy : ys.Quiet) (hno : no.Quiet) :
    Code.Quiet (if p then ys else no) := by
  split
  · exact hy
  · exact hno

/-! ## The methods are sound -/

theorem acquireGated_sound (s : Config) (r : AcquireRequest) (k : Kind) :
    (acquireGated s r k).Sound := by
  unfold acquireGated
  dsimp only
  split
  · exact (quiet_releaseGate quiet_done).sound
  · intro now operationID reply
    rcases reply with error | ⟨it, joined⟩
    · exact (quiet_releaseGate quiet_done).sound
    · cases joined with
      | true => exact (quiet_releaseGate quiet_done).sound
      | false => exact quiet_done.sound

theorem acquire_quiet (s : Config) (r : AcquireRequest) : (acquire s r).Quiet := by
  unfold acquire
  split
  · exact quiet_done
  split
  · exact quiet_done
  refine quiet_store fun reply => ?_
  split
  · exact quiet_tryAcquireGate quiet_done (acquireGated_sound s r _)
  · exact quiet_done

variable {self : Config}

theorem transition_quiet {r : ℤ} {ts : OpState} {b : Option Str} {next : Option Row → Code}
    (h : ∀ result, (next result).Quiet) :
    (transition self operationID r ts b next).Quiet := by
  refine quiet_read fun fields => ?_
  cases ha : fields.active with
  | none => exact ⟨fun _ => (h none).records, (h none).sound⟩
  | some active =>
    refine ⟨fun hn => absurd hn (by simp), ?_⟩
    dsimp only
    split
    · exact (h none).sound
    · intro now reply
      rcases reply with error | it
      · exact (h none).sound
      · dsimp only
        split
        · exact (quiet_clearActive (h (some it))).sound
        · exact (h (some it)).sound

theorem beginRollback_quiet (self : Config) (operationID : Str) (r : ℤ) (fs : OpState)
    (b : Option Str) :
    (beginRollback self operationID r fs b).Quiet := by
  refine quiet_tryAcquireGate quiet_done ?_
  intro now reply
  rcases reply with error | it
  · exact (quiet_releaseGate quiet_done).sound
  · exact quiet_done.sound

theorem heartbeat_quiet (self : Config) (operationID : Str) (revision : ℤ) :
    (heartbeat self operationID revision).Quiet :=
  quiet_clock fun _ => quiet_reply (fun _ => quiet_done) fun _ =>
    ⟨quiet_done.records, quiet_done.sound⟩

theorem tick_quiet (self : Config) : (tick self).Quiet := by
  refine quiet_read_any fun fields => ?_
  cases fields.active with
  | none => exact quiet_done
  | some active => exact quiet_ite quiet_done (heartbeat_quiet ..)

theorem forgetState_quiet (operationID : Str) (r : ℤ) : (forgetState operationID r).Quiet :=
  quiet_ask fun _ => quiet_ite (quiet_clock fun _ => quiet_store fun _ => quiet_done) quiet_done

theorem forceUnlock_quiet (operationID : Str) (r : ℤ) : (forceUnlock operationID r).Quiet := by
  refine quiet_read_any fun fields => quiet_ite (quiet_ask fun _ => quiet_ite ?_ quiet_done) quiet_done
  refine quiet_clock fun now => quiet_store fun reply => ?_
  rcases reply with error | it
  · exact quiet_done
  · exact ⟨fun h => h, quiet_done.records, quiet_done.sound⟩

variable {i : Row}

theorem attemptRecoveryRollback_quiet {next : OpState → Code} (h : ∀ s, (next s).Quiet) :
    (attemptRecoveryRollback self i next).Quiet := by
  refine quiet_clock fun now => quiet_ite ?_ (quiet_store fun _ => h _)
  refine quiet_ask fun rolledBack => quiet_ite (quiet_store fun _ => h _) ?_
  exact quiet_store fun _ => quiet_ask fun b => h _

theorem recoverRollingBack_quiet {next : Bool → Code} (h : ∀ ok, (next ok).Quiet) :
    (recoverRollingBack self i next).Quiet := by
  refine quiet_tryAcquireGate (h false) ?_
  intro now reply
  rcases reply with error | claimed
  · exact (quiet_releaseGate (h false)).sound
  · have ha : Code.Quiet (attemptRecoveryRollback self claimed fun fs =>
        transition self claimed.operationID claimed.revision fs none fun f =>
          if f.isSome then next true else .releaseGate (next false)) :=
      attemptRecoveryRollback_quiet fun _ => transition_quiet fun _ =>
        quiet_ite (h true) (quiet_releaseGate (h false))
    exact ha.sound

theorem recoveryTarget_quiet {next : OpState → Code} (h : ∀ s, (next s).Quiet) :
    (recoveryTarget self i next).Quiet := by
  unfold recoveryTarget
  refine quiet_ite (h _) (quiet_ite (h _) (quiet_ite ?_ (quiet_ite (h _) ?_)))
  · exact quiet_ite (quiet_ask fun _ => h _) (h _)
  · refine quiet_ask fun a => ?_
    split
    · exact h _
    · exact h _
    · exact quiet_clock fun _ => quiet_store fun _ => quiet_ask fun _ => h _

theorem recordRuntimeFailure_quiet {c : Row} (h : next.Quiet) :
    (recordRuntimeFailure c next).Quiet :=
  quiet_countFailure fun _ => quiet_clock fun _ => quiet_store fun _ => h

theorem finalizeReconcile_quiet {c : Row} {s : OpState} {next : Bool → Code}
    (h : ∀ ok, (next ok).Quiet) : (finalizeReconcile c s next).Quiet := by
  refine quiet_read_any fun fields => quiet_clock fun now => quiet_store fun reply => ?_
  rcases reply with error | i
  · exact quiet_ite (recordRuntimeFailure_quiet (quiet_clearActive (h false)))
      (quiet_clearActive (h false))
  · exact quiet_clearActive (h true)

theorem claimReconcile_sound {ip : Bool} {next : Bool → Code} (h : ∀ ok, (next ok).Quiet) :
    (claimReconcile self i ip next).Sound := by
  intro now reply
  rcases reply with error | claimed
  · exact (quiet_releaseGate (h false)).sound
  · have hf : Code.Quiet (recordRuntimeFailure claimed (.clearActive (next false))) :=
      recordRuntimeFailure_quiet (quiet_clearActive (h false))
    refine (quiet_ite hf (quiet_ask fun r => ?_)).sound
    split
    · exact quiet_ite (finalizeReconcile_quiet h) (quiet_clearActive (h false))
    · exact hf
    · exact quiet_clearActive (h false)

theorem reconcileOwnedKind_quiet {next : Bool → Code} (h : ∀ ok, (next ok).Quiet) :
    (reconcileOwnedKind self i next).Quiet := by
  refine quiet_ask fun cancelled => quiet_ite (h false) (quiet_tryAcquireGate (h false) ?_)
  rw [if_pos rfl]
  split
  · intro n
    cases n with
    | yes | runtimeFailed => exact claimReconcile_sound h
    | no => exact (quiet_releaseGate (h true)).sound
    | failed | decision => exact (quiet_releaseGate (h false)).sound
  · exact claimReconcile_sound h

theorem probe_quiet (i : Row) {next : Answer → Code} (h : ∀ answer, (next answer).Quiet) :
    (probe i next).Quiet := quiet_ite (h _) (quiet_ask h)

variable {n : ℤ}

theorem recoverReconciled_quiet (h : next.Quiet) : (recoverReconciled self n i next).Quiet := by
  have hr : (reconcileOwnedKind self i fun ok => if ok then next else .done).Quiet :=
    reconcileOwnedKind_quiet fun _ => quiet_ite h quiet_done
  refine quiet_read_any fun fields => quiet_ite h (quiet_ite ?_ hr)
  exact probe_quiet i fun a => quiet_ite hr h

theorem recoverForeign_quiet (h : next.Quiet) : (recoverForeign self n i next).Quiet := by
  have hs (i : Row) (state : OpState) (operationID : Str) :
      Code.Quiet (if state = .rollingBack then
        recoverRollingBack self i fun ok => if ok then next else .done
        else if state = .lockSuspect then .markSuspect operationID next else next) :=
    quiet_ite (recoverRollingBack_quiet fun _ => quiet_ite h quiet_done)
      (quiet_ite (quiet_markSuspect h) h)
  refine probe_quiet i fun a => quiet_ite (recoveryTarget_quiet fun ts => ?_) ?_
  · exact quiet_ite (hs i ts _)
      (quiet_reply (fun _ => quiet_done) fun updated => hs updated updated.state _)
  · exact quiet_ite (hs i .lockSuspect _)
      (quiet_reply (fun _ => quiet_done) fun updated => hs updated updated.state _)

theorem recoverItem_quiet (h : next.Quiet) : (recoverItem self n i next).Quiet := by
  refine quiet_ite (recoverReconciled_quiet h) ?_
  have hg : Code.Quiet (if ownedBy self i then
      if i.state = .prepared ∧ i.expiresAt < n then
        transition self i.operationID i.revision
          (if i.kind = .fronting then .cancelled else .abandoned) none fun updated =>
            if updated.isSome then next else .done
      else next
      else recoverForeign self n i next) :=
    quiet_ite (quiet_ite (transition_quiet fun _ => quiet_ite h quiet_done) h)
      (recoverForeign_quiet h)
  exact quiet_tryAcquireGate hg hg.sound

theorem recoverEnd_quiet : recoverEnd.Quiet := by
  refine quiet_store fun reply => ?_
  rcases reply with error | r
  · exact quiet_done
  · exact quiet_ite (quiet_releaseGate quiet_done) quiet_done

theorem recover_quiet (self : Config) : (recover self).Quiet := by
  refine quiet_store fun reply => ?_
  rcases reply with error | all
  · exact quiet_done
  · refine quiet_clock fun n => ?_
    unfold recoverItems
    induction all.filter (recoverable self) with
    | nil => exact recoverEnd_quiet
    | cons i it ih => exact recoverItem_quiet ih

/-- Every method is sound and relies on the gate only once it has passed it. -/
theorem Method.code_quiet (self : Config) (m : Method) : (m.code self).Quiet := by
  cases m with
  | acquire request => exact acquire_quiet self request
  | transition => exact transition_quiet fun _ => quiet_done
  | beginRollback | beginReconciledRollback => exact beginRollback_quiet ..
  | heartbeat => exact heartbeat_quiet ..
  | tick => exact tick_quiet self
  | forgetState => exact forgetState_quiet ..
  | forceUnlock => exact forceUnlock_quiet ..
  | recover => exact recover_quiet self

/-! ## One instruction -/

/-- Whether the instruction would release the gate under an operation: under the recorded one, unless
it clears that, or under another call that relies on the gate. -/
def Code.GivesAway (fields : Fields) (others : Prop) : Code → Prop
  | .releaseGate _ => fields.active ≠ none ∨ others
  | .clearActive _ => others
  | .unlock operationID _ => fields.active ≠ none ∧ fields.isActive operationID = false ∨ others
  | _ => False

/-- What an instruction does with the gate. -/
inductive GateEffect (view view' : View) : Prop
  | kept (hgate : view'.gate = view.gate) (howns : view'.fields.ownsGate = view.fields.ownsGate)
  | taken (hfree : view.gate = false) (hgate : view'.gate = true)
    (howns : view'.fields.ownsGate = true)
  | given (howned : view.fields.ownsGate = true) (howns : view'.fields.ownsGate = false)

theorem View.tryAcquireGate_effect (v : View) : GateEffect v v.tryAcquireGate.2 := by
  unfold View.tryAcquireGate
  split
  · exact .kept rfl rfl
  split
  · exact .kept rfl rfl
  next hf => exact .taken (by simpa using hf) rfl rfl

theorem View.releaseGateLocked_effect (v : View) : GateEffect v v.releaseGateLocked := by
  unfold View.releaseGateLocked
  split
  next ho => exact .given ho rfl
  · exact .kept rfl rfl

theorem Ran.gateEffect {v v' : View} {c r : Code} (h : Ran v c v' r) : GateEffect v v' := by
  cases h with
  | entered => exact v.tryAcquireGate_effect
  | released => exact v.releaseGateLocked_effect
  | cleared =>
    cases (v.setActive none).releaseGateLocked_effect with
    | kept hg how => exact .kept hg how
    | taken hf hg how => exact .taken hf hg how
    | given ho how => exact .given ho how
  | @unlocked operationID _ =>
    cases View.releaseGateLocked_effect { v with fields := v.fields.forget operationID } with
    | kept hg how => exact .kept hg how
    | taken hf hg how => exact .taken hf hg how
    | given ho how => exact .given ho how
  | @refreshed operationID i _ =>
    unfold View.refresh
    split <;> exact .kept rfl rfl
  | _ => exact .kept rfl rfl

theorem Fields.forget_active_ne {fs : Fields} (h : (fs.forget operationID).active ≠ none) :
    fs.active ≠ none ∧ fs.isActive operationID = false := by
  cases ha : fs.isActive operationID with
  | true => simp [Fields.forget, ha] at h
  | false =>
    simp only [Fields.forget, ha, Bool.false_eq_true, if_false] at h
    exact ⟨h, rfl⟩

/-- What relies on the gate keeps it: the recorded operation, this call and `others` before the
instruction, and after it. -/
theorem Ran.relied {v v' : View} {c r : Code} {others : Prop} (h : Ran v c v' r) (hs : c.Sound)
    (hre : v.fields.active ≠ none ∨ c.Records ∨ others → v.fields.ownsGate = true)
    (hk : v.fields.ownsGate = true → ¬c.GivesAway v.fields others) :
    (v'.fields.active ≠ none ∨ r.Records ∨ others → v'.fields.ownsGate = true) ∧
      r.Sound := by
  -- What relies on the gate owns it, and the condition excludes that the gate is then given away.
  have hh (hrl : v.fields.active ≠ none ∨ others) : ¬c.GivesAway v.fields others :=
    hk (hre (hrl.imp_right .inr))
  cases h with
  | entered =>
    refine ⟨?_, hs.2 _⟩
    unfold View.tryAcquireGate
    split
    next ho => exact fun _ => ho
    next hf =>
      split
      · rintro (ha | hrc | hoh)
        · exact hre (.inl ha)
        · exact absurd hrc hs.1
        · exact hre (.inr (.inr hoh))
      · exact fun _ => rfl
  | released =>
    refine ⟨fun hrl => absurd hrl ?_, hs.2⟩
    rw [View.releaseGateLocked_active]
    rintro (ha | hrc | hoh)
    · exact hh (.inl ha) (.inl ha)
    · exact hs.1 hrc
    · exact hh (.inr hoh) (.inr hoh)
  | activated => exact ⟨fun _ => hre (.inr (.inl trivial)), hs⟩
  | cleared =>
    refine ⟨fun hrl => absurd hrl ?_, hs.2⟩
    rw [View.releaseGateLocked_active]
    rintro (ha | hrc | hoh)
    · exact ha rfl
    · exact hs.1 hrc
    · exact hh (.inr hoh) hoh
  | unlocked =>
    refine ⟨fun hrl => absurd hrl ?_, hs.2⟩
    rw [View.unlock, View.releaseGateLocked_active]
    rintro (ha | hrc | hoh)
    · have hot := Fields.forget_active_ne ha
      exact hh (.inl hot.1) (.inl hot)
    · exact hs.1 hrc
    · exact hh (.inr hoh) (.inr hoh)
  | refreshed =>
    refine ⟨?_, hs⟩
    unfold View.refresh
    split
    next ha =>
      refine fun _ => hre (.inl fun he => ?_)
      simp [Fields.isActive, he] at ha
    · exact hre
  | looked =>
    refine ⟨?_, (hs _).2⟩
    rintro (ha | hrc | hoh)
    · exact hre (.inl ha)
    · exact hre (.inl fun he => (hs _).1 he hrc)
    · exact hre (.inr (.inr hoh))
  | suspected => exact ⟨hre, hs⟩
  | counted | called | refused | timed | named | answered =>
    exact ⟨fun hrl => hre (hrl.imp_right (Or.imp_left fun hr => ⟨_, hr⟩)), hs _⟩

end Solovey.Operations
