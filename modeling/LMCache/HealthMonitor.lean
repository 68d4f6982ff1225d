/-
# LMCache.HealthMonitor — health checks, and the fallback to the local CPU.

Source: `HealthMonitor` of `v1/health_monitor/base.py`, and what it calls of `StorageManager` and
`LocalCPUBackend`.

A check of policy `RECOMPUTE` that fails makes the whole system unhealthy.  One of policy
`LOCAL_CPU` takes its backend out instead and turns the hot cache on; what the hot cache was set to
is kept from the first backend that goes out to the last that comes back.  A check is failed in
every cycle in which it does not pass, but it recovers only in a cycle in which it passes and the
one before it did not.
-/
import LMCache.Lib.Dict
import LMCache.Lib.Run
import Mathlib.Data.Finset.Basic
import Mathlib.Data.List.Pairwise

namespace LMCache.Health

open LMCache.Lib

/-! ## Checks, and what the monitor acts on -/

inductive FallbackPolicy where
  | recompute
  | localCpu
  deriving DecidableEq, Repr

/-- A `HealthCheck`, by what it says of itself. -/
structure HealthCheck where
  name : String
  fallbackPolicy : FallbackPolicy
  bypassBackendName : Option String
  shouldSkip : Bool
  deriving DecidableEq, Repr

/-- What a call of `check` comes to: it returns, or raises. -/
inductive CheckResult where
  | returned (isHealthy : Bool)
  | raised
  | raisedIrrecoverable
  deriving DecidableEq, Repr

/-- An exception counts as a failure. -/
def CheckResult.isHealthy : CheckResult → Bool
  | returned isHealthy => isHealthy
  | raised | raisedIrrecoverable => false

/-- What the monitor touches of `LocalCPUBackend`, with the number of calls of `clear`. -/
structure LocalCPUBackend where
  useHot : Bool
  clears : Nat
  deriving DecidableEq, Repr

def LocalCPUBackend.clear (b : LocalCPUBackend) : LocalCPUBackend :=
  { b with clears := b.clears + 1 }

structure StorageManager where
  bypassedBackends : Finset String
  localCpuBackend : Option LocalCPUBackend
  deriving DecidableEq

namespace StorageManager

def setBackendBypass (sm : StorageManager) (backendName : String) (bypassed : Bool) :
    StorageManager :=
  if bypassed then { sm with bypassedBackends := insert backendName sm.bypassedBackends }
  else { sm with bypassedBackends := sm.bypassedBackends.erase backendName }

def isBackendBypassed (sm : StorageManager) (backendName : String) : Bool :=
  backendName ∈ sm.bypassedBackends

/-- What is done to the `LocalCPUBackend`, if there is one. -/
def withLocalCpu (sm : StorageManager) (f : LocalCPUBackend → LocalCPUBackend) : StorageManager :=
  { sm with localCpuBackend := sm.localCpuBackend.map f }

end StorageManager

/-! ## The monitor -/

structure HealthMonitor where
  healthChecks : List HealthCheck
  healthy : Bool
  /-- The name of a backend, and of the check that it is out for. -/
  bypassedBackends : Dict String String
  originalHotCache : Option Bool
  previousCheckStatus : Dict String Bool
  storageManager : Option StorageManager

/-- `ThreadRunSummary`: what the texts of a cycle are made of. -/
structure ThreadRunSummary where
  success : Bool
  totalChecks : Nat
  failedChecks : List String
  bypassedBackends : Nat
  deriving DecidableEq, Repr

namespace HealthMonitor

/-- `__init__`, with the checks that were discovered. -/
def init (checks : List HealthCheck) (storageManager : Option StorageManager) : HealthMonitor where
  healthChecks := checks
  healthy := true
  bypassedBackends := .empty
  originalHotCache := none
  previousCheckStatus := checks.foldl (fun d check => d.set check.name true) .empty
  storageManager := storageManager

def isHealthy (m : HealthMonitor) : Bool := m.healthy

def setHealthy (m : HealthMonitor) (healthy : Bool) : HealthMonitor :=
  if m.healthy ≠ healthy then { m with healthy := healthy } else m

/-- `_get_local_cpu_backend`, for a storage manager that is there. -/
def localCpuBackend (m : HealthMonitor) : Option LocalCPUBackend :=
  m.storageManager.bind StorageManager.localCpuBackend

def isBackendBypassed (m : HealthMonitor) (backendName : String) : Bool :=
  m.storageManager.any (StorageManager.isBackendBypassed · backendName)

/-- `_apply_local_cpu_fallback`. -/
def applyLocalCpuFallback (m : HealthMonitor) (check : HealthCheck) : HealthMonitor :=
  match check.bypassBackendName, m.storageManager with
  | some backendName, some storageManager =>
    if backendName ∈ m.bypassedBackends then m
    else
      { m with
        originalHotCache :=
          if m.bypassedBackends.entries.length = 0 then
            storageManager.localCpuBackend.map LocalCPUBackend.useHot
          else m.originalHotCache
        storageManager := some <|
          (storageManager.setBackendBypass backendName true).withLocalCpu ({ · with useHot := true })
        bypassedBackends := m.bypassedBackends.set backendName check.name }
  | _, _ => m

/-- The hot cache is set to what it was, and then cleared if that is off. -/
def restoreHotCache (storageManager : StorageManager) : Option Bool → StorageManager
  | none => storageManager
  | some original => storageManager.withLocalCpu fun b =>
    if original then { b with useHot := original } else { b with useHot := original }.clear

/-- `_recover_from_local_cpu_fallback`. -/
def recoverFromLocalCpuFallback (m : HealthMonitor) (check : HealthCheck) : HealthMonitor :=
  match check.bypassBackendName, m.storageManager with
  | some backendName, some storageManager =>
    match m.bypassedBackends.get? backendName with
    | none => m
    | some checkName =>
      if checkName ≠ check.name then m
      else
        let storageManager := storageManager.setBackendBypass backendName false
        let bypassedBackends := m.bypassedBackends.erase backendName
        -- the hot cache waits for the last backend
        if bypassedBackends.entries.length = 0 then
          { m with
            storageManager := some (restoreHotCache storageManager m.originalHotCache)
            bypassedBackends := bypassedBackends
            originalHotCache := none }
        else
          { m with storageManager := some storageManager, bypassedBackends := bypassedBackends }
  | _, _ => m

/-- A round of `_run_all_checks`, once it is known whether the check passed. -/
def afterCheck (m : HealthMonitor) (check : HealthCheck) (isHealthy : Bool) : HealthMonitor :=
  let wasHealthy := (m.previousCheckStatus.get? check.name).getD true
  let m := { m with previousCheckStatus := m.previousCheckStatus.set check.name isHealthy }
  if isHealthy then
    if !wasHealthy && check.fallbackPolicy = .localCpu then m.recoverFromLocalCpuFallback check
    else m
  else
    match check.fallbackPolicy with
    | .recompute => m
    | .localCpu => m.applyLocalCpuFallback check

/-- `_run_all_checks`: the loop over the checks, which an irrecoverable exception leaves. -/
def runAllChecks (result : HealthCheck → CheckResult) :
    List HealthCheck → HealthMonitor → Bool → HealthMonitor × Option Bool
  | [], m, allHealthy => (m, some allHealthy)
  | check :: checks, m, allHealthy =>
    if check.shouldSkip then runAllChecks result checks m allHealthy
    else if result check = .raisedIrrecoverable then (m, none)
    else
      let isHealthy := (result check).isHealthy
      runAllChecks result checks (m.afterCheck check isHealthy)
        (if !isHealthy && check.fallbackPolicy = .recompute then false else allHealthy)

/-- `_execute`: one cycle, and its summary unless it ends the thread. -/
def execute (result : HealthCheck → CheckResult) (m : HealthMonitor) :
    HealthMonitor × Option ThreadRunSummary :=
  match runAllChecks result m.healthChecks m true with
  | (m, none) => (m.setHealthy false, none)
  | (m, some isHealthy) =>
    (m.setHealthy isHealthy, some
      { success := isHealthy
        totalChecks := m.healthChecks.length
        failedChecks := (m.previousCheckStatus.entries.filter fun e => !e.2).map Prod.fst
        bypassedBackends := m.bypassedBackends.entries.length })

/-- The number of calls of `LocalCPUBackend.clear` so far. -/
def clears (m : HealthMonitor) : Nat := m.localCpuBackend.elim 0 LocalCPUBackend.clears

/-- The last backend that was out comes back. -/
def FullRecovery (before after : HealthMonitor) : Prop :=
  (∃ backend, before.isBackendBypassed backend = true) ∧
    ∀ backend, after.isBackendBypassed backend = false

end HealthMonitor

/-! ## The state between two rounds -/

/-- Names and backends that are not shared. -/
structure Distinct (checks : List HealthCheck) : Prop where
  names : (checks.map HealthCheck.name).Nodup
  backends : (checks.filterMap HealthCheck.bypassBackendName).Nodup

variable {check : HealthCheck}

theorem Distinct.eq_of_name {checks : List HealthCheck} (h : Distinct checks) {check' : HealthCheck}
    (hc : check ∈ checks) (hc' : check' ∈ checks) (heq : check.name = check'.name) :
    check = check' :=
  List.inj_on_of_nodup_map h.names hc hc' heq

theorem Distinct.eq_of_backend {checks : List HealthCheck} (h : Distinct checks)
    {check' : HealthCheck} (hc : check ∈ checks) (hc' : check' ∈ checks) {backend : String}
    (hb : check.bypassBackendName = some backend) (hb' : check'.bypassBackendName = some backend) :
    check = check' := by
  have hpairs := List.pairwise_filterMap.mp h.backends
  have : Std.Symm fun a a' : HealthCheck => ∀ b, a.bypassBackendName = some b →
      ∀ b', a'.bypassBackendName = some b' → b ≠ b' :=
    ⟨fun a a' haa' b hb b' hb' hbb' => haa' b' hb' b hb hbb'.symm⟩
  by_contra hne
  exact hpairs.forall hc hc' hne backend hb backend hb' rfl

/-- The backends that are out, by the last results: those whose `LOCAL_CPU` check did not pass. -/
def OutFor (checks : List HealthCheck) (status : Dict String Bool) (backend name : String) : Prop :=
  ∃ check ∈ checks, check.fallbackPolicy = .localCpu ∧ check.bypassBackendName = some backend ∧
    check.name = name ∧ status.get? name = some false

/-- Monitor, storage manager and `LocalCPUBackend` agree.  `useHot` is what the hot cache was set to
at first. -/
structure Managed (useHot : Bool) (m : HealthMonitor) (sm : StorageManager)
    (cpu : LocalCPUBackend) :
    Prop where
  storageManager : m.storageManager = some sm
  localCpu : sm.localCpuBackend = some cpu
  managed : ∀ backend, backend ∈ sm.bypassedBackends ↔ backend ∈ m.bypassedBackends
  hot : cpu.useHot = if m.bypassedBackends.entries.length = 0 then useHot else true
  original : m.originalHotCache =
    if m.bypassedBackends.entries.length = 0 then none else some useHot

/-- They agree with the last results, too. -/
structure Consistent (checks : List HealthCheck) (useHot : Bool) (m : HealthMonitor)
    (sm : StorageManager) (cpu : LocalCPUBackend) : Prop extends Managed useHot m sm cpu where
  healthChecks : m.healthChecks = checks
  bypassed : ∀ backend name, m.bypassedBackends.get? backend = some name ↔
    OutFor checks m.previousCheckStatus backend name

theorem length_entries_eq_zero {d : Dict String String} : d.entries.length = 0 ↔ ∀ k, k ∉ d := by
  rw [List.length_eq_zero_iff, ← List.map_eq_nil_iff (f := Prod.fst),
    List.eq_nil_iff_forall_not_mem]
  rfl

variable {checks : List HealthCheck} {useHot : Bool} {m : HealthMonitor} {sm : StorageManager}
  {cpu : LocalCPUBackend}

namespace Managed

theorem isBackendBypassed_iff (h : Managed useHot m sm cpu) (backend : String) :
    m.isBackendBypassed backend = true ↔ backend ∈ m.bypassedBackends := by
  rw [← h.managed]
  unfold HealthMonitor.isBackendBypassed StorageManager.isBackendBypassed
  rw [h.storageManager]
  exact decide_eq_true_iff

theorem length_eq_zero_iff (h : Managed useHot m sm cpu) :
    m.bypassedBackends.entries.length = 0 ↔ ∀ backend, m.isBackendBypassed backend = false := by
  rw [length_entries_eq_zero]
  refine forall_congr' fun backend => ?_
  rw [← h.isBackendBypassed_iff, Bool.not_eq_true]

theorem localCpuBackend_eq (h : Managed useHot m sm cpu) : m.localCpuBackend = some cpu := by
  unfold HealthMonitor.localCpuBackend
  rw [h.storageManager]
  exact h.localCpu

theorem clears_eq (h : Managed useHot m sm cpu) : m.clears = cpu.clears := by
  unfold HealthMonitor.clears
  rw [h.localCpuBackend_eq]
  rfl

/-- A backend goes out, and the hot cache on. -/
theorem applyLocalCpuFallback (h : Managed useHot m sm cpu) {check : HealthCheck} {backend : String}
    (hb : check.bypassBackendName = some backend) (hnot : backend ∉ m.bypassedBackends) :
    Managed useHot (m.applyLocalCpuFallback check)
        ((sm.setBackendBypass backend true).withLocalCpu ({ · with useHot := true }))
        { cpu with useHot := true } ∧
      (m.applyLocalCpuFallback check).bypassedBackends =
        m.bypassedBackends.set backend check.name := by
  have heq : m.applyLocalCpuFallback check =
      { m with
        originalHotCache :=
          if m.bypassedBackends.entries.length = 0 then
            sm.localCpuBackend.map LocalCPUBackend.useHot
          else m.originalHotCache
        storageManager := some <|
          (sm.setBackendBypass backend true).withLocalCpu ({ · with useHot := true })
        bypassedBackends := m.bypassedBackends.set backend check.name } := by
    unfold HealthMonitor.applyLocalCpuFallback
    rw [hb, h.storageManager]
    exact if_neg hnot
  have hlength : (m.bypassedBackends.set backend check.name).entries.length ≠ 0 := by
    rw [Ne, length_entries_eq_zero, not_forall]
    exact ⟨backend, not_not.mpr ((Dict.mem_set _ _ _ _).mpr (.inl rfl))⟩
  rw [heq]
  refine ⟨⟨rfl, ?_, fun b => ?_, ?_, ?_⟩, rfl⟩
  · show (sm.localCpuBackend.map _) = _
    rw [h.localCpu]
    rfl
  · show b ∈ insert backend sm.bypassedBackends ↔ b ∈ m.bypassedBackends.set backend check.name
    rw [Finset.mem_insert, Dict.mem_set, h.managed]
  · exact (if_neg hlength).symm
  · dsimp only
    rw [if_neg hlength, h.localCpu, h.original, Option.map_some, h.hot]
    split <;> rfl

/-- A backend comes back.  The hot cache is what it was once all of them are. -/
theorem recoverFromLocalCpuFallback (h : Managed useHot m sm cpu) {check : HealthCheck}
    {backend : String} (hb : check.bypassBackendName = some backend)
    (hget : m.bypassedBackends.get? backend = some check.name) :
    ∃ sm' cpu', Managed useHot (m.recoverFromLocalCpuFallback check) sm' cpu' ∧
      (m.recoverFromLocalCpuFallback check).bypassedBackends = m.bypassedBackends.erase backend ∧
      cpu'.clears = cpu.clears + if (m.bypassedBackends.erase backend).entries.length = 0 ∧
        useHot = false then 1 else 0 := by
  have hlength : m.bypassedBackends.entries.length ≠ 0 := by
    rw [Ne, length_entries_eq_zero, not_forall]
    exact ⟨backend, not_not.mpr (Dict.mem_iff_get?.mpr ⟨_, hget⟩)⟩
  have horiginal : m.originalHotCache = some useHot := by rw [h.original, if_neg hlength]
  have hmanaged : ∀ b, b ∈ sm.bypassedBackends.erase backend ↔
      b ∈ m.bypassedBackends.erase backend := by
    intro b
    rw [Finset.mem_erase, Dict.mem_erase, h.managed]
  unfold HealthMonitor.recoverFromLocalCpuFallback
  rw [hb, h.storageManager]
  dsimp only
  rw [hget]
  dsimp only
  rw [if_neg (not_not.mpr rfl)]
  by_cases hlast : (m.bypassedBackends.erase backend).entries.length = 0
  · rw [if_pos hlast, horiginal]
    refine ⟨_,
      if useHot then { cpu with useHot := useHot } else { cpu with useHot := useHot }.clear,
      ⟨rfl, ?_, hmanaged, ?_, ?_⟩, rfl, ?_⟩
    · show (sm.localCpuBackend.map _) = _
      rw [h.localCpu]
      rfl
    · dsimp only
      rw [if_pos hlast]
      split <;> rfl
    · exact (if_pos hlast).symm
    · cases useHot <;> simp [LocalCPUBackend.clear, hlast]
  · rw [if_neg hlast]
    refine ⟨_, cpu, ⟨rfl, h.localCpu, hmanaged, ?_, ?_⟩, rfl, ?_⟩
    · rw [h.hot, if_neg hlength]
      exact (if_neg hlast).symm
    · exact horiginal.trans (if_neg hlast).symm
    · rw [if_neg (fun hand => hlast hand.1)]
      rfl

end Managed

/-- What the result of one check does to the backends that are out. -/
theorem outFor_set (hd : Distinct checks) (hc : check ∈ checks) (status : Dict String Bool)
    (isHealthy : Bool) (backend name : String) :
    OutFor checks (status.set check.name isHealthy) backend name ↔
      if check.fallbackPolicy = .localCpu ∧ check.bypassBackendName = some backend then
        isHealthy = false ∧ name = check.name
      else OutFor checks status backend name := by
  unfold OutFor
  by_cases hcond : check.fallbackPolicy = .localCpu ∧ check.bypassBackendName = some backend
  · rw [if_pos hcond]
    constructor
    · rintro ⟨check', hc', hpolicy, hbackend, rfl, hstatus⟩
      have heq := hd.eq_of_backend hc' hc hbackend hcond.2
      subst heq
      rw [Dict.get?_set, if_pos rfl] at hstatus
      exact ⟨Option.some.inj hstatus, rfl⟩
    · rintro ⟨rfl, rfl⟩
      refine ⟨check, hc, hcond.1, hcond.2, rfl, ?_⟩
      rw [Dict.get?_set, if_pos rfl]
  · rw [if_neg hcond]
    refine exists_congr fun check' => ?_
    simp only [and_congr_right_iff]
    rintro hc' hpolicy hbackend rfl
    have hne : check'.name ≠ check.name := by
      intro hname
      have heq := hd.eq_of_name hc' hc hname
      exact hcond ⟨heq ▸ hpolicy, heq ▸ hbackend⟩
    rw [Dict.get?_set, if_neg hne]

/-! ## One round -/

namespace HealthMonitor

theorem frame_applyLocalCpuFallback (m : HealthMonitor) (check : HealthCheck) :
    (m.applyLocalCpuFallback check).healthChecks = m.healthChecks ∧
      (m.applyLocalCpuFallback check).previousCheckStatus = m.previousCheckStatus := by
  unfold applyLocalCpuFallback
  split
  · split <;> exact ⟨rfl, rfl⟩
  · exact ⟨rfl, rfl⟩

theorem frame_recoverFromLocalCpuFallback (m : HealthMonitor) (check : HealthCheck) :
    (m.recoverFromLocalCpuFallback check).healthChecks = m.healthChecks ∧
      (m.recoverFromLocalCpuFallback check).previousCheckStatus = m.previousCheckStatus := by
  unfold recoverFromLocalCpuFallback
  split
  · split
    · exact ⟨rfl, rfl⟩
    · split
      · exact ⟨rfl, rfl⟩
      · dsimp only
        split <;> exact ⟨rfl, rfl⟩
  · exact ⟨rfl, rfl⟩

/-- A round keeps its result, and does nothing else to the checks. -/
theorem frame_afterCheck (m : HealthMonitor) (check : HealthCheck) (isHealthy : Bool) :
    (m.afterCheck check isHealthy).healthChecks = m.healthChecks ∧
      (m.afterCheck check isHealthy).previousCheckStatus =
        m.previousCheckStatus.set check.name isHealthy := by
  unfold afterCheck
  dsimp only
  split
  · split
    · exact frame_recoverFromLocalCpuFallback _ check
    · exact ⟨rfl, rfl⟩
  · split
    · exact ⟨rfl, rfl⟩
    · exact frame_applyLocalCpuFallback _ check

/-- The number of calls of `clear` that a round should make. -/
def clearsDue (useHot : Bool) (before after : HealthMonitor) : Nat :=
  if before.bypassedBackends.entries.length ≠ 0 ∧ after.bypassedBackends.entries.length = 0 ∧
    useHot = false then 1 else 0

end HealthMonitor

open HealthMonitor

namespace Consistent

variable {backend : String} {check : HealthCheck}

/-- The backend of a check is out for that check, when its last result was a failure. -/
theorem get?_bypassed (hd : Distinct checks) (h : Consistent checks useHot m sm cpu)
    (hc : check ∈ checks) (hpolicy : check.fallbackPolicy = .localCpu)
    (hb : check.bypassBackendName = some backend) :
    m.bypassedBackends.get? backend =
      if m.previousCheckStatus.get? check.name = some false then some check.name else none := by
  ext name
  rw [h.bypassed]
  constructor
  · rintro ⟨check', hc', -, hb', rfl, hstatus⟩
    have heq := hd.eq_of_backend hc' hc hb' hb
    subst heq
    rw [if_pos hstatus]
  · intro hname
    split at hname
    · rename_i hstatus
      cases hname
      exact ⟨check, hc, hpolicy, hb, rfl, hstatus⟩
    · cases hname

/-- What is left to show of a round, once the backends that are out are known. -/
theorem of_get? (hd : Distinct checks) (h : Consistent checks useHot m sm cpu) (hc : check ∈ checks)
    {isHealthy : Bool} {sm' : StorageManager} {cpu' : LocalCPUBackend}
    (hmanaged : Managed useHot (m.afterCheck check isHealthy) sm' cpu')
    (hget : ∀ backend, (m.afterCheck check isHealthy).bypassedBackends.get? backend =
      if check.fallbackPolicy = .localCpu ∧ check.bypassBackendName = some backend then
        if isHealthy then none else some check.name
      else m.bypassedBackends.get? backend) :
    Consistent checks useHot (m.afterCheck check isHealthy) sm' cpu' := by
  obtain ⟨hchecks, hstatus⟩ := frame_afterCheck m check isHealthy
  refine ⟨hmanaged, hchecks.trans h.healthChecks, fun backend name => ?_⟩
  rw [hget, hstatus, outFor_set hd hc]
  split
  · cases isHealthy <;> simp [eq_comm]
  · exact h.bypassed backend name

/-- A round that leaves the backends alone. -/
theorem of_stays (hd : Distinct checks) (h : Consistent checks useHot m sm cpu)
    (hc : check ∈ checks) {isHealthy : Bool} (heq : m.afterCheck check isHealthy =
      { m with previousCheckStatus := m.previousCheckStatus.set check.name isHealthy })
    (hstays : check.fallbackPolicy = .localCpu → ∀ backend, check.bypassBackendName = some backend →
      m.bypassedBackends.get? backend = if isHealthy then none else some check.name) :
    ∃ sm' cpu', Consistent checks useHot (m.afterCheck check isHealthy) sm' cpu' ∧
      cpu'.clears = cpu.clears + clearsDue useHot m (m.afterCheck check isHealthy) := by
  refine ⟨sm, cpu, of_get? hd h hc ?_ ?_, ?_⟩
  · rw [heq]
    exact ⟨h.storageManager, h.localCpu, h.managed, h.hot, h.original⟩
  · intro backend
    rw [heq]
    split
    · rename_i hcond
      exact hstays hcond.1 backend hcond.2
    · rfl
  · unfold clearsDue
    rw [heq, if_neg (fun hand => hand.1 hand.2.1)]
    rfl

/-- A check with no backend to take out leaves the backends alone. -/
theorem afterCheck_of_noBackend (hd : Distinct checks) (h : Consistent checks useHot m sm cpu)
    (hc : check ∈ checks) (isHealthy : Bool)
    (hno : check.fallbackPolicy = .recompute ∨ check.bypassBackendName = none) :
    ∃ sm' cpu', Consistent checks useHot (m.afterCheck check isHealthy) sm' cpu' ∧
      cpu'.clears = cpu.clears + clearsDue useHot m (m.afterCheck check isHealthy) := by
  refine of_stays hd h hc ?_ ?_
  · have happly : ∀ m : HealthMonitor, check.bypassBackendName = none →
        m.applyLocalCpuFallback check = m := by
      intro m hb
      unfold applyLocalCpuFallback
      rw [hb]
    have hrecover : ∀ m : HealthMonitor, check.bypassBackendName = none →
        m.recoverFromLocalCpuFallback check = m := by
      intro m hb
      unfold recoverFromLocalCpuFallback
      rw [hb]
    unfold HealthMonitor.afterCheck
    dsimp only
    rcases hno with hpolicy | hb
    · rw [hpolicy]
      cases isHealthy
      · rfl
      · rw [if_pos rfl]
        exact if_neg (by simp)
    · rw [happly _ hb, hrecover _ hb, ite_self]
      cases check.fallbackPolicy <;> exact ite_self _
  · intro hpolicy backend hb
    rcases hno with hpolicy' | hb'
    · cases hpolicy.symm.trans hpolicy'
    · cases hb.symm.trans hb'

/-- A check that did not pass: its backend goes out, unless it is out. -/
theorem afterCheck_failed (hd : Distinct checks) (h : Consistent checks useHot m sm cpu)
    (hc : check ∈ checks) (hpolicy : check.fallbackPolicy = .localCpu)
    (hb : check.bypassBackendName = some backend) :
    ∃ sm' cpu', Consistent checks useHot (m.afterCheck check false) sm' cpu' ∧
      cpu'.clears = cpu.clears + clearsDue useHot m (m.afterCheck check false) := by
  let recorded : HealthMonitor :=
    { m with previousCheckStatus := m.previousCheckStatus.set check.name false }
  have hrecorded : Managed useHot recorded sm cpu :=
    ⟨h.storageManager, h.localCpu, h.managed, h.hot, h.original⟩
  have hget := get?_bypassed hd h hc hpolicy hb
  have heq : m.afterCheck check false = recorded.applyLocalCpuFallback check := by
    unfold HealthMonitor.afterCheck
    dsimp only
    rw [hpolicy]
    rfl
  by_cases hout : m.previousCheckStatus.get? check.name = some false
  · rw [if_pos hout] at hget
    have hsame : recorded.applyLocalCpuFallback check = recorded := by
      unfold applyLocalCpuFallback
      rw [hb, hrecorded.storageManager]
      exact if_pos (Dict.mem_iff_get?.mpr ⟨_, hget⟩)
    refine of_stays hd h hc (heq.trans hsame) fun _ backend' hb' => ?_
    cases hb.symm.trans hb'
    exact hget
  · rw [if_neg hout] at hget
    obtain ⟨hmanaged, hbypassed⟩ := hrecorded.applyLocalCpuFallback hb (Dict.get?_eq_none.mp hget)
    rw [← heq] at hmanaged hbypassed
    refine ⟨_, _, of_get? hd h hc hmanaged fun b => ?_, ?_⟩
    · rw [hbypassed, Dict.get?_set]
      simp only [hpolicy, hb, true_and, Option.some.injEq, eq_comm (a := b)]
      rfl
    · have hlength : (m.afterCheck check false).bypassedBackends.entries.length ≠ 0 := by
        rw [hbypassed, Ne, length_entries_eq_zero, not_forall]
        exact ⟨backend, not_not.mpr ((Dict.mem_set _ _ _ _).mpr (.inl rfl))⟩
      unfold clearsDue
      rw [if_neg (fun hand => hlength hand.2.1)]
      rfl

/-- A check that passed: its backend comes back, if it is out. -/
theorem afterCheck_passed (hd : Distinct checks) (h : Consistent checks useHot m sm cpu)
    (hc : check ∈ checks) (hpolicy : check.fallbackPolicy = .localCpu)
    (hb : check.bypassBackendName = some backend) :
    ∃ sm' cpu', Consistent checks useHot (m.afterCheck check true) sm' cpu' ∧
      cpu'.clears = cpu.clears + clearsDue useHot m (m.afterCheck check true) := by
  let recorded : HealthMonitor :=
    { m with previousCheckStatus := m.previousCheckStatus.set check.name true }
  have hrecorded : Managed useHot recorded sm cpu :=
    ⟨h.storageManager, h.localCpu, h.managed, h.hot, h.original⟩
  have hget := get?_bypassed hd h hc hpolicy hb
  by_cases hout : m.previousCheckStatus.get? check.name = some false
  · rw [if_pos hout] at hget
    have heq : m.afterCheck check true = recorded.recoverFromLocalCpuFallback check := by
      unfold HealthMonitor.afterCheck
      dsimp only
      rw [if_pos rfl, hout]
      exact if_pos (by simpa using hpolicy)
    obtain ⟨sm', cpu', hmanaged, hbypassed, hclears⟩ :=
      hrecorded.recoverFromLocalCpuFallback hb hget
    rw [← heq] at hmanaged hbypassed
    refine ⟨sm', cpu', of_get? hd h hc hmanaged fun b => ?_, ?_⟩
    · rw [hbypassed, Dict.get?_erase]
      simp only [hpolicy, hb, true_and, Option.some.injEq, eq_comm (a := b)]
      rfl
    · have hlength : m.bypassedBackends.entries.length ≠ 0 := by
        rw [Ne, length_entries_eq_zero, not_forall]
        exact ⟨backend, not_not.mpr (Dict.mem_iff_get?.mpr ⟨_, hget⟩)⟩
      unfold clearsDue
      rw [hclears, hbypassed]
      simp only [ne_eq, hlength, not_false_eq_true, true_and]
  · rw [if_neg hout] at hget
    refine of_stays hd h hc ?_ ?_
    · have hwas : (m.previousCheckStatus.get? check.name).getD true = true := by
        cases hs : m.previousCheckStatus.get? check.name with
        | none => rfl
        | some was =>
          cases was with
          | false => exact absurd hs hout
          | true => rfl
      unfold HealthMonitor.afterCheck
      dsimp only
      rw [if_pos rfl, hwas]
      exact if_neg (by simp)
    · intro _ backend' hb'
      cases hb.symm.trans hb'
      exact hget

/-- **One round** keeps the monitor consistent, and clears the hot cache when it should. -/
theorem afterCheck (hd : Distinct checks) (h : Consistent checks useHot m sm cpu)
    (hc : check ∈ checks) (isHealthy : Bool) :
    ∃ sm' cpu', Consistent checks useHot (m.afterCheck check isHealthy) sm' cpu' ∧
      cpu'.clears = cpu.clears + clearsDue useHot m (m.afterCheck check isHealthy) := by
  cases hpolicy : check.fallbackPolicy with
  | recompute => exact afterCheck_of_noBackend hd h hc isHealthy (.inl hpolicy)
  | localCpu =>
    cases hb : check.bypassBackendName with
    | none => exact afterCheck_of_noBackend hd h hc isHealthy (.inr hb)
    | some backend =>
      cases isHealthy with
      | false => exact afterCheck_failed hd h hc hpolicy hb
      | true => exact afterCheck_passed hd h hc hpolicy hb

end Consistent

/-! ## Cycles -/

namespace HealthMonitor

/-- The state in which a cycle leaves the monitor. -/
def cycle (m : HealthMonitor) (result : HealthCheck → CheckResult) : HealthMonitor :=
  (execute result m).1

/-- The rounds of checks that are all made, as a fold. -/
theorem runAllChecks_eq {result : HealthCheck → CheckResult} {l : List HealthCheck}
    (hactive : ∀ check ∈ l, check.shouldSkip = false)
    (hordinary : ∀ check ∈ l, result check ≠ .raisedIrrecoverable) (m : HealthMonitor)
    (allHealthy : Bool) :
    runAllChecks result l m allHealthy =
      (l.foldl (fun m check => m.afterCheck check (result check).isHealthy) m,
        some (allHealthy && l.all fun check =>
          (result check).isHealthy || check.fallbackPolicy ≠ .recompute)) := by
  induction l generalizing m allHealthy with
  | nil => simp [runAllChecks]
  | cons check l ih =>
    rw [List.forall_mem_cons] at hactive hordinary
    unfold runAllChecks
    rw [hactive.1, if_neg Bool.false_ne_true, if_neg hordinary.1]
    dsimp only
    rw [ih hactive.2 hordinary.2, List.foldl_cons, List.all_cons]
    cases (result check).isHealthy <;> cases check.fallbackPolicy <;> cases allHealthy <;> rfl

/-- After its round a check has its result in the table. -/
theorem get?_foldl_afterCheck (result : HealthCheck → CheckResult) {l : List HealthCheck}
    (hnames : (l.map HealthCheck.name).Nodup) (m : HealthMonitor) {check : HealthCheck}
    (hc : check ∈ l) :
    (l.foldl (fun m check => m.afterCheck check (result check).isHealthy)
      m).previousCheckStatus.get?
      check.name = some (result check).isHealthy := by
  have htable : ∀ m : HealthMonitor,
      (l.foldl (fun m check => m.afterCheck check (result check).isHealthy) m).previousCheckStatus =
        (l.map fun check => (check.name, (result check).isHealthy)).foldl
          (fun d p => d.set p.1 p.2) m.previousCheckStatus := by
    clear hnames hc
    induction l with
    | nil => exact fun m => rfl
    | cons check l ih =>
      intro m
      rw [List.foldl_cons, ih, (frame_afterCheck m check _).2]
      rfl
  rw [htable]
  refine Dict.get?_foldl_set_of_mem _ ?_ (List.mem_map_of_mem hc)
  rwa [List.map_map]

end HealthMonitor

namespace Consistent

/-- **Several rounds** keep the monitor consistent. -/
theorem foldl_afterCheck (hd : Distinct checks) (result : HealthCheck → CheckResult)
    {l : List HealthCheck} (hl : ∀ check ∈ l, check ∈ checks)
    (h : Consistent checks useHot m sm cpu) : ∃ sm' cpu', Consistent checks useHot
      (l.foldl (fun m check => m.afterCheck check (result check).isHealthy) m) sm' cpu' := by
  induction l generalizing m sm cpu with
  | nil => exact ⟨sm, cpu, h⟩
  | cons check l ih =>
    rw [List.forall_mem_cons] at hl
    obtain ⟨sm', cpu', h', -⟩ := h.afterCheck hd hl.1 (result check).isHealthy
    exact ih hl.2 h'

theorem setHealthy (h : Consistent checks useHot m sm cpu) (healthy : Bool) :
    Consistent checks useHot (m.setHealthy healthy) sm cpu := by
  unfold HealthMonitor.setHealthy
  split
  · exact ⟨⟨h.storageManager, h.localCpu, h.managed, h.hot, h.original⟩, h.healthChecks, h.bypassed⟩
  · exact h

/-- What the monitor has at first. -/
theorem init (hd : Distinct checks) (cpu : LocalCPUBackend) :
    Consistent checks cpu.useHot (HealthMonitor.init checks (some ⟨∅, some cpu⟩)) ⟨∅, some cpu⟩
      cpu := by
  refine ⟨⟨rfl, rfl, fun backend => ?_, rfl, rfl⟩, rfl, fun backend name => ?_⟩
  · exact iff_of_false (Finset.notMem_empty _) (Dict.not_mem_empty _)
  · refine iff_of_false (fun h => nomatch h) ?_
    rintro ⟨check, hc, -, -, rfl, hstatus⟩
    have htrue : (HealthMonitor.init checks (some ⟨∅, some cpu⟩)).previousCheckStatus.get?
        check.name = some true := by
      show (checks.foldl (fun d check => d.set check.name true) Dict.empty).get? check.name = _
      have hnodup : ((checks.map fun check => (check.name, true)).map Prod.fst).Nodup := by
        rw [List.map_map]
        exact hd.names
      have hpairs := Dict.get?_foldl_set_of_mem Dict.empty hnodup (List.mem_map_of_mem hc)
      rwa [List.foldl_map] at hpairs
    cases htrue.symm.trans hstatus

end Consistent

/-- What a cycle should leave, and the calls of `clear` it should make: `useHot` is what the hot
cache was set to at first, and the rounds of the cycle are looked at one by one. -/
structure CycleSound (checks : List HealthCheck) (useHot : Bool)
    (result : HealthCheck → CheckResult) (before after : HealthMonitor) : Prop where
  healthy : after.isHealthy = true ↔
    ∀ check ∈ checks, check.fallbackPolicy = .recompute → (result check).isHealthy = true
  bypassed : ∀ backend, after.isBackendBypassed backend = true ↔
    ∃ check ∈ checks, check.fallbackPolicy = .localCpu ∧ check.bypassBackendName = some backend ∧
      (result check).isHealthy = false
  hot : (∃ backend, after.isBackendBypassed backend = true) →
    after.localCpuBackend.map LocalCPUBackend.useHot = some true
  restored : (∀ backend, after.isBackendBypassed backend = false) →
    after.localCpuBackend.map LocalCPUBackend.useHot = some useHot
  clears : ∀ done check rest, checks = done ++ check :: rest →
    let beforeRound := (runAllChecks result done before true).1
    let afterRound := (runAllChecks result (done ++ [check]) before true).1
    (FullRecovery beforeRound afterRound ∧ useHot = false →
      afterRound.clears = beforeRound.clears + 1) ∧
    (¬(FullRecovery beforeRound afterRound ∧ useHot = false) →
      afterRound.clears = beforeRound.clears)

theorem fullRecovery_iff {after : HealthMonitor} {sm' : StorageManager} {cpu' : LocalCPUBackend}
    (h : Managed useHot m sm cpu) (h' : Managed useHot after sm' cpu') : FullRecovery m after ↔
      m.bypassedBackends.entries.length ≠ 0 ∧ after.bypassedBackends.entries.length = 0 := by
  unfold FullRecovery
  rw [h'.length_eq_zero_iff, Ne, h.length_eq_zero_iff, not_forall]
  simp only [Bool.not_eq_false]

namespace Consistent

variable {result : HealthCheck → CheckResult}

theorem cycle_eq (hactive : ∀ check ∈ checks, check.shouldSkip = false)
    (hordinary : ∀ check ∈ checks, result check ≠ .raisedIrrecoverable)
    (h : Consistent checks useHot m sm cpu) :
    m.cycle result =
      (checks.foldl (fun m check => m.afterCheck check (result check).isHealthy) m).setHealthy
        (checks.all fun check =>
          (result check).isHealthy || check.fallbackPolicy ≠ .recompute) := by
  unfold cycle execute
  rw [h.healthChecks, runAllChecks_eq hactive hordinary]
  rfl

/-- A cycle keeps the monitor consistent. -/
theorem cycle (hd : Distinct checks) (hactive : ∀ check ∈ checks, check.shouldSkip = false)
    (hordinary : ∀ check ∈ checks, result check ≠ .raisedIrrecoverable)
    (h : Consistent checks useHot m sm cpu) :
    ∃ sm' cpu', Consistent checks useHot (m.cycle result) sm' cpu' := by
  obtain ⟨sm', cpu', h'⟩ := foldl_afterCheck hd result (fun _ hc => hc) h
  rw [h.cycle_eq hactive hordinary]
  exact ⟨sm', cpu', h'.setHealthy _⟩

/-- **One cycle** of a consistent monitor. -/
theorem cycleSound (hd : Distinct checks) (hactive : ∀ check ∈ checks, check.shouldSkip = false)
    (hordinary : ∀ check ∈ checks, result check ≠ .raisedIrrecoverable)
    (h : Consistent checks useHot m sm cpu) :
    CycleSound checks useHot result m (m.cycle result) := by
  obtain ⟨sm', cpu', h'⟩ := h.cycle hd hactive hordinary
  have hstatus : ∀ check ∈ checks,
      (m.cycle result).previousCheckStatus.get? check.name = some (result check).isHealthy := by
    intro check hc
    rw [h.cycle_eq hactive hordinary, ← get?_foldl_afterCheck result hd.names m hc]
    unfold HealthMonitor.setHealthy
    split <;> rfl
  have hot := congrArg (Option.map LocalCPUBackend.useHot) h'.localCpuBackend_eq
  rw [Option.map_some, h'.hot] at hot
  constructor
  · rw [h.cycle_eq hactive hordinary]
    have hhealthy : ∀ (m : HealthMonitor) b, (m.setHealthy b).isHealthy = b := by
      intro m b
      unfold HealthMonitor.setHealthy
      split
      · rfl
      · rename_i heq
        exact not_not.mp heq
    rw [hhealthy, List.all_eq_true]
    refine forall₂_congr fun check _ => ?_
    cases (result check).isHealthy <;> cases check.fallbackPolicy <;> simp
  · intro backend
    rw [h'.isBackendBypassed_iff, Dict.mem_iff_get?]
    simp only [h'.bypassed, OutFor]
    constructor
    · rintro ⟨_, check, hc, hpolicy, hb, rfl, hfalse⟩
      exact ⟨check, hc, hpolicy, hb, Option.some.inj ((hstatus check hc).symm.trans hfalse)⟩
    · rintro ⟨check, hc, hpolicy, hb, hfalse⟩
      exact ⟨_, check, hc, hpolicy, hb, rfl, hfalse ▸ hstatus check hc⟩
  · rintro ⟨backend, hb⟩
    rwa [if_neg (fun h0 => by simp [h'.length_eq_zero_iff.mp h0 backend] at hb)] at hot
  · intro hnone
    rwa [if_pos (h'.length_eq_zero_iff.mpr hnone)] at hot
  · rintro done check rest rfl
    have hdone : ∀ c ∈ done, c ∈ done ++ check :: rest := fun c hc => List.mem_append_left _ hc
    have hone : ∀ c ∈ done ++ [check], c ∈ done ++ check :: rest := by
      intro c hc
      rcases List.mem_append.mp hc with hc | hc
      · exact hdone c hc
      · exact List.mem_append_right _ (List.mem_singleton.mp hc ▸ List.mem_cons_self)
    obtain ⟨sm₁, cpu₁, h₁⟩ := foldl_afterCheck hd result hdone h
    obtain ⟨sm₂, cpu₂, h₂, hclears⟩ :=
      h₁.afterCheck hd (hone check (by simp)) (result check).isHealthy
    rw [runAllChecks_eq (fun c hc => hactive c (hdone c hc)) (fun c hc => hordinary c (hdone c hc)),
      runAllChecks_eq (fun c hc => hactive c (hone c hc)) (fun c hc => hordinary c (hone c hc))]
    dsimp only
    rw [List.foldl_append, List.foldl_cons, List.foldl_nil,
      fullRecovery_iff h₁.toManaged h₂.toManaged, h₁.clears_eq, h₂.clears_eq, hclears, and_assoc]
    unfold clearsDue
    constructor
    · intro hall
      rw [if_pos hall]
    · intro hnot
      rw [if_neg hnot]
      rfl

/-- **Whole runs** keep the monitor consistent. -/
theorem run (hd : Distinct checks) (hactive : ∀ check ∈ checks, check.shouldSkip = false)
    {cycles : List (HealthCheck → CheckResult)}
    (hordinary : ∀ result ∈ cycles, ∀ check ∈ checks, result check ≠ .raisedIrrecoverable)
    (h : Consistent checks useHot m sm cpu) :
    ∃ sm' cpu', Consistent checks useHot (Lib.run HealthMonitor.cycle m cycles) sm' cpu' :=
  (always_of_guarded (P := fun m => ∃ sm cpu, Consistent checks useHot m sm cpu)
    (fun _ _ ⟨_, _, h⟩ hok => h.cycle hd hactive hok) ⟨sm, cpu, h⟩
    (guarded_of_forall hordinary)).last

end Consistent

/-- **The fallback is consistent** after every cycle of every run.  The run starts with no backend
out, and the hot cache set in any way. -/
theorem fallback_consistent {checks : List HealthCheck}
    (hnames : (checks.map HealthCheck.name).Nodup)
    (hbackends : (checks.filterMap HealthCheck.bypassBackendName).Nodup)
    (hactive : ∀ check ∈ checks, check.shouldSkip = false) (cpu : LocalCPUBackend)
    {cycles : List (HealthCheck → CheckResult)} {result : HealthCheck → CheckResult}
    (hordinary : ∀ r ∈ result :: cycles, ∀ check ∈ checks, r check ≠ .raisedIrrecoverable) :
    let before := run cycle (init checks (some ⟨∅, some cpu⟩)) cycles
    CycleSound checks cpu.useHot result before (before.cycle result) := by
  rw [List.forall_mem_cons] at hordinary
  have hd : Distinct checks := ⟨hnames, hbackends⟩
  obtain ⟨sm, cpu', h⟩ := (Consistent.init hd cpu).run hd hactive hordinary.2
  exact h.cycleSound hd hactive hordinary.1

/-- One remote backend is out for a cycle and comes back, and another one fails for good. -/
theorem fallback_consistent_remote :
    let checks : List HealthCheck :=
      [⟨"RemoteBackendHealthCheck(lm://a)", .localCpu, "RemoteBackend", false⟩,
        ⟨"RemoteBackendHealthCheck(lm://b)", .recompute, "remote_backend_1", false⟩]
    let result (check : HealthCheck) : CheckResult :=
      if check.fallbackPolicy = .localCpu then .returned true else .returned false
    let before := run cycle (init checks (some ⟨∅, some ⟨false, 0⟩⟩)) [fun _ => .raised]
    CycleSound checks false result before (before.cycle result) :=
  fallback_consistent (by decide) (by decide) (by decide) ⟨false, 0⟩ (by decide)

end LMCache.Health
