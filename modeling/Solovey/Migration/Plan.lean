import Solovey.Data.LastEvent
import Solovey.Migration.Version

/-!
# The plan of the migrations

A stored version selects the steps that run on the database. Every step names the minor release it
starts from, and the version that the loop carries moves on to the target of the step that has run.
-/

namespace Solovey.Migration

open Solovey.Text Solovey.Data List

inductive Migrator
  | normalizeClientStorage
  | importLegacyConfigObjects
  | normalizeDNSAndOutboundOptions
  | addTokenAuditSchema
  | addClientIPPrivacySchema
  | addAuditFilterIndexes
  | completeComponentSchemaBoundary
  | addPanelNativeSecuritySchema
  | addSSHManagementRecoverySchema
  | addDeploymentProfileSchema
  | addOperationsLifecycleSchema
  | upgradeSingBoxStoredState
  | addClientDisableReason
  deriving DecidableEq

structure Step where
  fromMajor : ℕ
  fromMinor : ℕ
  target : Str
  run : Migrator

def sequentialSteps : List Step :=
  [⟨1, 2, "1.3".toList, .normalizeDNSAndOutboundOptions⟩,
    ⟨1, 3, "1.4".toList, .addTokenAuditSchema⟩,
    ⟨1, 4, "1.5".toList, .addClientIPPrivacySchema⟩,
    ⟨1, 5, "1.6".toList, .addAuditFilterIndexes⟩,
    ⟨1, 6, "1.7".toList, .completeComponentSchemaBoundary⟩]

def coreSequentialSteps : List Step :=
  [⟨1, 7, "1.8".toList, .addPanelNativeSecuritySchema⟩,
    ⟨1, 8, "1.9".toList, .addSSHManagementRecoverySchema⟩,
    ⟨1, 9, "1.10".toList, .addDeploymentProfileSchema⟩,
    ⟨1, 10, "1.11".toList, .addOperationsLifecycleSchema⟩]

def currentCoreVersion : Str := "1.13".toList

section

-- what a migrator does to the transaction, or its error
variable {D : Type} (run : Migrator → D → Except Str D)

/-- One migrator; an error says which release it leads to. -/
def perform (label target : Str) (m : Migrator) (tx : D) : Except Str (Str × D) :=
  ((run m tx).mapError (label ++ target ++ ": ".toList ++ ·)).map fun tx => (target, tx)

/-- The body of the loop over the steps. -/
def runStep (label : Str) (at_ : Str × D) (s : Step) : Except Str (Str × D) :=
  if dbVersionMinorIs at_.1 s.fromMajor s.fromMinor then perform run label s.target s.run at_.2
  else .ok at_

def runSteps (label : Str) (steps : List Step) (start : Str × D) : Except Str (Str × D) :=
  steps.foldlM (runStep run label) start

def runPending (dbVersion : Str) (tx : D) : Except Str (Str × D) := do
  let label := "migration to ".toList
  if dbVersion = [] then
    let (_, tx) ← perform run label "1.1".toList .normalizeClientStorage tx
    runSteps run label sequentialSteps
      (← perform run label "1.2".toList .importLegacyConfigObjects tx)
  else runSteps run label sequentialSteps (dbVersion, tx)

/-- A step of the core schema that starts from one version only. -/
def runFrom (label version target : Str) (m : Migrator) (at_ : Str × D) : Except Str (Str × D) :=
  if at_.1 = version then perform run label target m at_.2 else .ok at_

def runCorePending (coreVersion : Str) (tx : D) : Except Str (Str × D) := do
  let label := "core migration to ".toList
  let at_ ← runSteps run label coreSequentialSteps
    (if coreVersion = [] then "1.7".toList else coreVersion, tx)
  let at_ ← runFrom run label "1.11".toList "1.12".toList .upgradeSingBoxStoredState at_
  let at_ ← runFrom run label "1.12".toList "1.13".toList .addClientDisableReason at_
  if at_.1 = currentCoreVersion then .ok at_
  else .error ("core schema \"".toList ++ at_.1 ++
    "\" is outside the supported sequential migration plan".toList)

/-- The transaction of `MigratePath`: both plans run, and then the versions are stored. -/
def migratePath (upsertVersionSetting : Str → Str → D → Except Str D)
    (currentVersion dbVersion coreVersion : Str) (tx : D) : Except Str D := do
  let (_, tx) ← runPending run dbVersion tx
  let (coreVersion, tx) ← runCorePending run coreVersion tx
  let tx ← (upsertVersionSetting "coreSchemaVersion".toList coreVersion tx).mapError
    ("update core schema version: ".toList ++ ·)
  (upsertVersionSetting "version".toList currentVersion tx).mapError ("update version: ".toList ++ ·)

end

/-! ## The steps of a stored version -/

/-- The migrators in their order, with the release that each leads to. -/
def plan : List (Str × Migrator) :=
  [("1.1".toList, .normalizeClientStorage), ("1.2".toList, .importLegacyConfigObjects)] ++
    sequentialSteps.map fun s => (s.target, s.run)

def corePlan : List (Str × Migrator) :=
  (coreSequentialSteps.map fun s => (s.target, s.run)) ++
    [("1.12".toList, .upgradeSingBoxStoredState), ("1.13".toList, .addClientDisableReason)]

/-- The target is a later minor release than the stored version, if there is one. -/
def isLater (stored : Option (ℕ × ℕ)) (target : Str) : Bool :=
  (release target).any fun t => stored.all fun r => r.1 < t.1 || r.1 = t.1 && r.2 < t.2

def pending (l : List (Str × Migrator)) (stored : Option (ℕ × ℕ)) : List Migrator :=
  (l.filter fun m => isLater stored m.1).map (·.2)

/-- Whatever the migrators do, a migration that ends well has run the pending ones, in their order
and each once. -/
def RunsAll (migrate : ∀ {D : Type}, (Migrator → D → Except Str D) → Str → D → Except Str (Str × D))
    (l : List (Str × Migrator)) (version : Str) : Prop :=
  ∀ {D : Type} (run : Migrator → D → Except Str D) (tx tx' : D) (w : Str),
    migrate run version tx = .ok (w, tx') →
    (pending l (release version)).foldlM (fun tx m => run m tx) tx = .ok tx'

/-- Whatever the migrators do, a database is stored with the current versions only after all pending
migrators of both plans have run. -/
def StampsLast (currentVersion dbVersion coreVersion : Str) : Prop :=
  ∀ {D : Type} (run : Migrator → D → Except Str D) (upsert : Str → Str → D → Except Str D)
    (tx tx' : D), migratePath run upsert currentVersion dbVersion coreVersion tx = .ok tx' →
    ∃ migrated stamped,
      (pending plan (release dbVersion) ++ pending corePlan (release coreVersion)).foldlM
        (fun tx m => run m tx) tx = .ok migrated ∧
      upsert "coreSchemaVersion".toList currentCoreVersion migrated = .ok stamped ∧
      upsert "version".toList currentVersion stamped = .ok tx'

/-! ## The loop -/

section

variable {D : Type} {run : Migrator → D → Except Str D} {label v w : Str} {tx tx' : D}
  {steps : List Step} {k m : ℕ}

theorem perform_ok {t : Str} {g : Migrator} :
    perform run label t g tx = .ok (w, tx') ↔ run g tx = .ok tx' ∧ w = t := by
  rw [perform, map_ok]
  simp only [mapError_ok, Prod.mk.injEq]
  constructor
  · rintro ⟨_, hr, rfl, rfl⟩
    exact ⟨hr, rfl⟩
  · rintro ⟨hr, rfl⟩
    exact ⟨tx', hr, rfl, rfl⟩

/-- Every step starts from the minor release that the one before it leads to. -/
def Chained : ℕ → List Step → Prop
  | _, [] => True
  | k, s :: steps => s.fromMajor = 1 ∧ s.fromMinor = k ∧ release s.target = some (1, k + 1) ∧
    Chained (k + 1) steps

theorem runSteps_cons (s : Step) : runSteps run label (s :: steps) (v, tx) =
      (if release v = some (s.fromMajor, s.fromMinor) then perform run label s.target s.run tx
        else .ok (v, tx)) >>= runSteps run label steps := by
  rw [runSteps, foldlM_cons, runStep]
  simp only [dbVersionMinorIs, decide_eq_true_eq]
  rfl

theorem runSteps_skip (h : ∀ s ∈ steps, release v ≠ some (s.fromMajor, s.fromMinor)) :
    runSteps run label steps (v, tx) = .ok (v, tx) := by
  induction steps with
  | nil => rfl
  | cons s steps ih =>
    rw [runSteps_cons, if_neg (h s mem_cons_self)]
    exact ih fun s hs => h s (mem_cons_of_mem _ hs)

theorem isLater_iff {t : Str} (ht : release t = some (1, k + 1)) :
    isLater (some (1, m)) t = true ↔ m ≤ k := by
  simp [isLater, ht]

theorem pending_cons {l : List (Str × Migrator)} {r : Option (ℕ × ℕ)} {t : Str} {g : Migrator} :
    pending ((t, g) :: l) r = if isLater r t = true then g :: pending l r else pending l r := by
  rw [pending, filter_cons]
  split <;> rfl

theorem pending_chained (hc : Chained k steps) (hk : m ≤ k) :
    pending (steps.map fun s => (s.target, s.run)) (some (1, m)) = steps.map (·.run) := by
  induction steps generalizing k with
  | nil => rfl
  | cons s steps ih =>
    obtain ⟨-, -, ht, hc⟩ := hc
    rw [map_cons, pending_cons, if_pos ((isLater_iff ht).mpr hk),
      ih hc (Nat.le_succ_of_le hk), map_cons]

/-- The loop runs the steps from the release of the version on, and leaves the last target. -/
theorem runSteps_ok (hc : Chained k steps) (hv : release v = some (1, m)) (hk : k ≤ m)
    (h : runSteps run label steps (v, tx) = .ok (w, tx')) :
    (pending (steps.map fun s => (s.target, s.run)) (some (1, m))).foldlM
        (fun tx m => run m tx) tx = .ok tx' ∧
      release w = some (1, max m (k + steps.length)) := by
  induction steps generalizing k m v tx with
  | nil =>
    cases h
    exact ⟨rfl, by simpa [hk] using hv⟩
  | cons s steps ih =>
    obtain ⟨hmj, hmn, ht, hc⟩ := hc
    rw [runSteps_cons, bind_ok, hmj, hmn, hv] at h
    obtain ⟨⟨v', t₁⟩, hs, h⟩ := h
    rcases hk.eq_or_lt with rfl | hlt
    · -- the step runs, and all that follow it
      rw [if_pos rfl, perform_ok] at hs
      obtain ⟨hr, rfl⟩ := hs
      obtain ⟨hp, hw⟩ := ih hc ht le_rfl h
      refine ⟨?_, ?_⟩
      · rw [pending_chained hc le_rfl] at hp
        rw [map_cons, pending_cons, if_pos ((isLater_iff ht).mpr le_rfl),
          pending_chained hc (Nat.le_succ k), foldlM_cons, hr]
        exact hp
      · rw [hw, length_cons]
        congr 2
        omega
    · rw [if_neg (by simp; omega)] at hs
      cases hs
      obtain ⟨hp, hw⟩ := ih hc hv hlt h
      refine ⟨?_, ?_⟩
      · rw [map_cons, pending_cons, if_neg (mt (isLater_iff ht).mp (by omega))]
        exact hp
      · rw [hw, length_cons]
        congr 2
        omega

/-! ## The plan of the releases -/

/-- The stored version is empty, or its minor release is one that the steps know or a later one. -/
def OnPlan (version : Str) : Prop :=
  version = [] ∨ ∃ r, release version = some r ∧ (1 < r.1 ∨ r.1 = 1 ∧ 2 ≤ r.2)

theorem chained_sequentialSteps : Chained 2 sequentialSteps :=
  ⟨rfl, rfl, by decide, rfl, rfl, by decide, rfl, rfl, by decide, rfl, rfl, by decide, rfl, rfl,
    by decide, trivial⟩

theorem runPending_ok (hv : OnPlan v) (h : runPending run v tx = .ok (w, tx')) :
    (pending plan (release v)).foldlM (fun tx m => run m tx) tx = .ok tx' := by
  have h₁ : release "1.1".toList = some (1, 0 + 1) := by decide
  have h₂ : release "1.2".toList = some (1, 1 + 1) := by decide
  unfold runPending at h
  rcases hv with rfl | ⟨⟨mj, m⟩, hr, hm⟩
  · rw [if_pos rfl, bind_ok] at h
    obtain ⟨⟨v₁, t₁⟩, hs₁, h⟩ := h
    obtain ⟨⟨v₂, t₂⟩, hs₂, h⟩ := bind_ok.mp h
    obtain ⟨hr₁, rfl⟩ := perform_ok.mp hs₁
    obtain ⟨hr₂, rfl⟩ := perform_ok.mp hs₂
    have hp := (runSteps_ok chained_sequentialSteps h₂ le_rfl h).1
    rw [pending_chained chained_sequentialSteps le_rfl] at hp
    have ha : pending plan (release []) = .normalizeClientStorage :: .importLegacyConfigObjects ::
        sequentialSteps.map (·.run) := by decide
    rw [ha, foldlM_cons]
    exact bind_ok.mpr ⟨t₁, hr₁, bind_ok.mpr ⟨t₂, hr₂, hp⟩⟩
  · have hne : v ≠ [] := by
      rintro rfl
      have hn : release [] = none := by decide
      rw [hn] at hr
      cases hr
    rw [if_neg hne] at h
    rcases hm with hm | ⟨rfl, hm⟩
    · rw [runSteps_skip] at h
      · cases h
        have ha : ∀ t ∈ plan, (release t.1).all (·.1 = 1) = true := by decide
        rw [hr, pending, filter_eq_nil_iff.mpr]
        · rfl
        · intro t ht hl
          have h1 := ha t ht
          cases hrt : release t.1 with
          | none => simp [isLater, hrt] at hl
          | some r =>
            simp only [hrt, Option.all_some, decide_eq_true_eq] at h1
            simp only [isLater, hrt, Option.any_some, Option.all_some, Bool.or_eq_true,
              Bool.and_eq_true, decide_eq_true_eq] at hl
            omega
      · intro s hs hq
        have ha : ∀ s ∈ sequentialSteps, s.fromMajor = 1 := by decide
        rw [hr, ha s hs] at hq
        cases hq
        exact absurd hm (lt_irrefl 1)
    · have hp := (runSteps_ok chained_sequentialSteps hr hm h).1
      rw [hr, plan, cons_append, cons_append, nil_append, pending_cons,
        if_neg (mt (isLater_iff h₁).mp (by omega)), pending_cons,
        if_neg (mt (isLater_iff h₂).mp (by omega))]
      exact hp

theorem not_runsAll (hv : ¬ OnPlan v) : ¬ RunsAll runPending plan v := by
  intro h
  simp only [OnPlan, not_or, not_exists, not_and] at hv
  obtain ⟨hne, hr⟩ := hv
  -- no migrator is called, so it does not matter that all of them fail
  have hs : runPending (fun _ _ => .error []) v () = .ok (v, ()) := by
    unfold runPending
    rw [if_neg hne]
    refine runSteps_skip fun s hs hq => ?_
    have ha : ∀ s ∈ sequentialSteps, s.fromMajor = 1 ∧ 2 ≤ s.fromMinor := by decide
    exact (hr _ hq).2 (ha s hs).1 (ha s hs).2
  have hm : .completeComponentSchemaBoundary ∈ pending plan (release v) := by
    refine mem_map.mpr ⟨("1.7".toList, .completeComponentSchemaBoundary),
      mem_filter.mpr ⟨by decide, ?_⟩, rfl⟩
    have ht : release "1.7".toList = some (1, 7) := by decide
    rw [isLater, ht, Option.any_some]
    cases hq : release v with
    | none => rfl
    | some r =>
      obtain ⟨hle, hlt⟩ := hr r hq
      simp only [Option.all_some, Bool.or_eq_true, Bool.and_eq_true, decide_eq_true_eq]
      omega
  have hf := h _ _ _ _ hs
  cases hl : pending plan (release v) with
  | nil => simp [hl] at hm
  | cons g l =>
    rw [hl, foldlM_cons] at hf
    cases hf

/-! ## The plan of the core schema -/

theorem chained_coreSequentialSteps : Chained 7 coreSequentialSteps :=
  ⟨rfl, rfl, by decide, rfl, rfl, by decide, rfl, rfl, by decide, rfl, rfl, by decide, trivial⟩

theorem runFrom_ok {version t : Str} {g : Migrator} (h : runFrom run label version t g (v, tx) =
    .ok (w, tx')) : v = version ∧ w = t ∧ run g tx = .ok tx' ∨ v ≠ version ∧ w = v ∧ tx' = tx := by
  unfold runFrom at h
  split at h
  next hv =>
    obtain ⟨hr, rfl⟩ := perform_ok.mp h
    exact .inl ⟨hv, rfl, hr⟩
  next hv =>
    cases h
    exact .inr ⟨hv, rfl, rfl⟩

theorem pending_append (a b : List (Str × Migrator)) (r : Option (ℕ × ℕ)) :
    pending (a ++ b) r = pending a r ++ pending b r := by
  simp [pending]

/-- The steps of the core schema that the loop does not hold. -/
theorem pending_corePlan {m : ℕ} : pending corePlan (some (1, m)) =
    pending (coreSequentialSteps.map fun s => (s.target, s.run)) (some (1, m)) ++
      ((if m ≤ 11 then [.upgradeSingBoxStoredState] else []) ++
        if m ≤ 12 then [.addClientDisableReason] else []) := by
  have h₁ : release "1.12".toList = some (1, 11 + 1) := by decide
  have h₂ : release "1.13".toList = some (1, 12 + 1) := by decide
  rw [corePlan, pending_append, pending_cons, pending_cons]
  simp only [isLater_iff h₁, isLater_iff h₂]
  split <;> split <;> rfl

/-- The loop and the two last steps, from a version that is not empty. -/
theorem core_ok {w₁ w₂ : Str} {t₁ t₂ : D}
    (h₁ : runSteps run label coreSequentialSteps (v, tx) = .ok (w₁, t₁))
    (h₂ : runFrom run label "1.11".toList "1.12".toList .upgradeSingBoxStoredState (w₁, t₁) =
      .ok (w₂, t₂))
    (h₃ : runFrom run label "1.12".toList "1.13".toList .addClientDisableReason (w₂, t₂) =
      .ok (w, tx')) (hw : w = currentCoreVersion) :
    (pending corePlan (release v)).foldlM (fun tx m => run m tx) tx = .ok tx' := by
  have e₁ : release "1.11".toList = some (1, 11) := by decide
  have e₂ : release "1.12".toList = some (1, 12) := by decide
  have e₃ : release currentCoreVersion = some (1, 13) := by decide
  -- the release after the loop
  have hr : release w₁ = some (1, 11) ∧ run .upgradeSingBoxStoredState t₁ = .ok t₂ ∧
        run .addClientDisableReason t₂ = .ok tx' ∨
      release w₁ = some (1, 12) ∧ run .addClientDisableReason t₁ = .ok tx' ∨
      release w₁ = some (1, 13) ∧ tx' = t₁ := by
    rcases runFrom_ok h₂ with ⟨rfl, rfl, hr₂⟩ | ⟨-, rfl, rfl⟩
    · rcases runFrom_ok h₃ with ⟨-, -, hr₃⟩ | ⟨hne, -⟩
      · exact .inl ⟨e₁, hr₂, hr₃⟩
      · exact absurd rfl hne
    · rcases runFrom_ok h₃ with ⟨rfl, -, hr₃⟩ | ⟨-, rfl, rfl⟩
      · exact .inr (.inl ⟨e₂, hr₃⟩)
      · exact .inr (.inr ⟨hw ▸ e₃, rfl⟩)
  by_cases hv : ∃ m, release v = some (1, m) ∧ 7 ≤ m
  · obtain ⟨m, hv, hm⟩ := hv
    obtain ⟨hp, hl⟩ := runSteps_ok chained_coreSequentialSteps hv hm h₁
    rw [hv, pending_corePlan, foldlM_append]
    refine bind_ok.mpr ⟨t₁, hp, ?_⟩
    rw [hl] at hr
    simp only [Option.some.injEq, Prod.mk.injEq, true_and, coreSequentialSteps,
      length_cons, length_nil] at hr
    rcases hr with ⟨hm, hr₂, hr₃⟩ | ⟨hm, hr₃⟩ | ⟨hm, rfl⟩
    · rw [if_pos (by omega), if_pos (by omega)]
      exact bind_ok.mpr ⟨t₂, hr₂, bind_ok.mpr ⟨tx', hr₃, rfl⟩⟩
    · rw [if_neg (by omega), if_pos (by omega)]
      exact bind_ok.mpr ⟨tx', hr₃, rfl⟩
    · rw [if_neg (by omega), if_neg (by omega)]
      rfl
  · -- the loop leaves the version, which no later step takes
    rw [runSteps_skip] at h₁
    · cases h₁
      rcases hr with ⟨hr, -⟩ | ⟨hr, -⟩ | ⟨hr, -⟩ <;> exact absurd ⟨_, hr, by decide⟩ hv
    · intro s hs hq
      have ha : ∀ s ∈ coreSequentialSteps, s.fromMajor = 1 ∧ 7 ≤ s.fromMinor := by decide
      exact hv ⟨_, (ha s hs).1 ▸ hq, (ha s hs).2⟩

theorem runCorePending_ok (h : runCorePending run v tx = .ok (w, tx')) :
    w = currentCoreVersion ∧
      (pending corePlan (release v)).foldlM (fun tx m => run m tx) tx = .ok tx' := by
  unfold runCorePending at h
  obtain ⟨⟨w₁, t₁⟩, h₁, h⟩ := bind_ok.mp h
  obtain ⟨⟨w₂, t₂⟩, h₂, h⟩ := bind_ok.mp h
  obtain ⟨⟨w₃, t₃⟩, h₃, h⟩ := bind_ok.mp h
  split at h
  next hw =>
    cases h
    refine ⟨hw, ?_⟩
    by_cases hv : v = []
    · subst hv
      have ha : pending corePlan (release []) = pending corePlan (release "1.7".toList) := by decide
      rw [ha]
      exact core_ok h₁ h₂ h₃ hw
    · rw [if_neg hv] at h₁
      exact core_ok h₁ h₂ h₃ hw
  · cases h

end

/-! ## No step is skipped -/

theorem stampsLast {currentVersion dbVersion coreVersion : Str} (hv : OnPlan dbVersion) :
    StampsLast currentVersion dbVersion coreVersion := by
  intro D run upsert tx tx' h
  unfold migratePath at h
  obtain ⟨⟨reached, middle⟩, hp, h⟩ := bind_ok.mp h
  obtain ⟨⟨core, migrated⟩, hc, h⟩ := bind_ok.mp h
  obtain ⟨stamped, hs, hstamp⟩ := bind_ok.mp h
  obtain ⟨rfl, hcore⟩ := runCorePending_ok hc
  refine ⟨migrated, stamped, ?_, mapError_ok.mp hs, mapError_ok.mp hstamp⟩
  rw [foldlM_append]
  exact bind_ok.mpr ⟨middle, runPending_ok hv hp, hcore⟩

/-- `RunPending` fails or runs every pending migrator exactly for the versions on its plan;
`RunCorePendingWithOptions` does so for every version. For a version on the plan, a database is
stamped only after that. -/
theorem no_step_skipped_iff (dbVersion coreVersion : Str) :
    (RunsAll runPending plan dbVersion ∧ RunsAll runCorePending corePlan coreVersion ↔
      OnPlan dbVersion) ∧
    (OnPlan dbVersion → ∀ currentVersion, StampsLast currentVersion dbVersion coreVersion) := by
  refine ⟨⟨?_, ?_⟩, fun hv currentVersion => stampsLast hv⟩
  · rintro ⟨h, -⟩
    by_contra hv
    exact not_runsAll hv h
  · intro hv
    exact ⟨fun _ _ _ _ h => runPending_ok hv h, fun _ _ _ _ h => (runCorePending_ok h).2⟩

/-- The release 1.1 passes the check, and `RunPending` ends well without any migrator: the database
gets the current version. -/
theorem steps_skipped_of_old_release :
    rejectFutureVersion "database".toList "1.1".toList "2026.5.0".toList = .ok () ∧
    (∀ {D : Type} (run : Migrator → D → Except Str D) (tx : D),
      runPending run "1.1".toList tx = .ok ("1.1".toList, tx)) ∧
    pending plan (release "1.1".toList) ≠ [] ∧
    ¬ StampsLast "2026.5.0".toList "1.1".toList currentCoreVersion := by
  have hskip : ∀ {D : Type} (run : Migrator → D → Except Str D) (tx : D),
      runPending run "1.1".toList tx = .ok ("1.1".toList, tx) :=
    fun run tx => runSteps_skip (by decide)
  refine ⟨by decide, hskip, by decide, fun h => ?_⟩
  -- every migrator fails, and none is run
  obtain ⟨migrated, stamped, hm, -⟩ := h (D := Unit) (fun _ _ => .error []) (fun _ _ _ => .ok ())
    () () (by rfl)
  cases hm

end Solovey.Migration
