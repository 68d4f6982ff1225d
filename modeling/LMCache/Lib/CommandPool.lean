/-
# LMCache.Lib.CommandPool — coroutines that send commands to one server, under a semaphore.

A coroutine waits for a permit, sends a command with it, and goes on with the reply: it sends another
command, or gives the permit back and waits for one again, or is over.  Commands of different
coroutines reach the server in any order, a command may fail before the server sees it or lose its
reply, and the server changes by itself.

* `always_of_sound` — the invariant rule: one claim about the server and one about each coroutine,
  which the commands of the others must leave true;
* `permits_add_held` — no permit is lost or made;
* `exists_drain` — coroutines whose programs end are never stuck.
-/
import LMCache.Lib.Run
import LMCache.Lib.Weights

namespace LMCache.Lib

universe u

/-- Where a coroutine is. -/
inductive Phase (κ ο : Type u) where
  /-- It waits for a permit, to send a command with it. -/
  | waiting (c : κ)
  /-- It has a permit, and its command is under way. -/
  | holding (c : κ)
  | done (o : ο)

/-- A coroutine, and what it was asked for. -/
structure Task (ρ κ ο : Type u) where
  request : ρ
  phase : Phase κ ο

structure CommandPool (σ ρ κ ο : Type u) where
  server : σ
  permits : Nat
  tasks : List (Task ρ κ ο)

/-- The programs of the coroutines, and the server. -/
structure Programs (σ ρ κ ο ε δ : Type u) where
  /-- The first command of a request, unless it is over at once. -/
  enter : ρ → κ ⊕ ο
  /-- What a command makes of the server. -/
  serve : σ → κ → σ
  /-- How a coroutine goes on with the reply of the server. -/
  proceed : σ → κ → ε → Phase κ ο
  /-- How a coroutine ends whose command fails. -/
  failed : ο
  /-- What the server does by itself. -/
  disturb : σ → δ → σ

/-- What a coroutine does, or what happens to it. -/
inductive Move (ε : Type u) where
  | acquire
  | execute (e : ε)
  /-- The command takes effect, but the reply is lost. -/
  | unanswered
  | fail

inductive PoolAction (ρ ε δ : Type u) where
  | start (r : ρ)
  | task (i : Nat) (m : Move ε)
  | disturb (d : δ)

/-- A coroutine is over. -/
def Phase.isDone {κ ο : Type u} : Phase κ ο → Bool
  | .done _ => true
  | _ => false

/-- The permits that a coroutine has. -/
def Phase.held {κ ο : Type u} : Phase κ ο → Nat
  | .holding _ => 1
  | _ => 0

theorem Phase.held_le {κ ο : Type u} (phase : Phase κ ο) : phase.held ≤ 1 := by
  cases phase <;> simp [Phase.held]

/-- An upper bound of the moves left to a coroutine, from one for each command. -/
def Phase.left {κ ο : Type u} (commands : κ → Nat) : Phase κ ο → Nat
  | .waiting c => 2 * commands c
  | .holding c => 2 * commands c - 1
  | .done _ => 0

namespace Programs

variable {σ ρ κ ο ε δ : Type u} (p : Programs σ ρ κ ο ε δ)

def start (r : ρ) : Phase κ ο :=
  match p.enter r with
  | .inl c => .waiting c
  | .inr o => .done o

/-- A move of one coroutine: the server, the permits and the coroutine then. -/
def advance (server : σ) (permits : Nat) : Phase κ ο → Move ε → Option (σ × Nat × Phase κ ο)
  | .waiting c, .acquire => if 0 < permits then some (server, permits - 1, .holding c) else none
  | .waiting _, .fail => some (server, permits, .done p.failed)
  | .holding c, .execute e =>
    let phase := p.proceed server c e
    some (p.serve server c, permits + 1 - phase.held, phase)
  | .holding c, .unanswered => some (p.serve server c, permits + 1, .done p.failed)
  | .holding _, .fail => some (server, permits + 1, .done p.failed)
  | _, _ => none

def step (s : CommandPool σ ρ κ ο) : PoolAction ρ ε δ → CommandPool σ ρ κ ο
  | .start r => { s with tasks := s.tasks ++ [⟨r, p.start r⟩] }
  | .disturb d => { s with server := p.disturb s.server d }
  | .task i m =>
    match s.tasks[i]? with
    | none => s
    | some t =>
      match p.advance s.server s.permits t.phase m with
      | none => s
      | some (server, permits, phase) => ⟨server, permits, s.tasks.set i ⟨t.request, phase⟩⟩

/-! ## What a move can do -/

/-- The moves, one by one. -/
inductive Moved (server : σ) (permits : Nat) : Phase κ ο → Move ε → σ → Nat → Phase κ ο → Prop where
  | acquire (c : κ) : 0 < permits →
      Moved server permits (.waiting c) .acquire server (permits - 1) (.holding c)
  | execute (c : κ) (e : ε) : Moved server permits (.holding c) (.execute e) (p.serve server c)
      (permits + 1 - (p.proceed server c e).held) (p.proceed server c e)
  | unanswered (c : κ) : Moved server permits (.holding c) .unanswered (p.serve server c)
      (permits + 1) (.done p.failed)
  | fail (phase : Phase κ ο) : phase.isDone = false →
      Moved server permits phase .fail server (permits + phase.held) (.done p.failed)

variable {p}

theorem moved_of_advance {server server' : σ} {permits permits' : Nat} {phase phase' : Phase κ ο}
    {m : Move ε} (h : p.advance server permits phase m = some (server', permits', phase')) :
    p.Moved server permits phase m server' permits' phase' := by
  cases phase with
  | done o => cases m <;> cases h
  | waiting c =>
    cases m with
    | acquire =>
      simp only [advance, Option.ite_none_right_eq_some] at h
      obtain ⟨hpos, h⟩ := h
      cases h
      exact .acquire c hpos
    | fail =>
      cases h
      exact .fail _ rfl
    | execute e => cases h
    | unanswered => cases h
  | holding c =>
    cases m with
    | acquire => cases h
    | execute e =>
      cases h
      exact .execute c e
    | unanswered =>
      cases h
      exact .unanswered c
    | fail =>
      cases h
      exact .fail _ rfl

/-- **What a step of a coroutine can do**: nothing, or one of the moves. -/
theorem step_task (s : CommandPool σ ρ κ ο) (i : Nat) (m : Move ε) :
    p.step s (.task i m) = s ∨ ∃ t server permits phase, s.tasks[i]? = some t ∧
      p.Moved s.server s.permits t.phase m server permits phase ∧
      p.step s (.task i m) = ⟨server, permits, s.tasks.set i ⟨t.request, phase⟩⟩ := by
  simp only [step]
  cases ht : s.tasks[i]? with
  | none => exact .inl rfl
  | some t =>
    cases hmove : p.advance s.server s.permits t.phase m with
    | none =>
      left
      simp only [hmove]
    | some r =>
      simp only [hmove]
      exact .inr ⟨t, r.1, r.2.1, r.2.2, rfl, moved_of_advance hmove, rfl⟩

/-! ## The invariant rule -/

/-- The requests that have been made. -/
def Asked (s : CommandPool σ ρ κ ο) (r : ρ) : Prop := ∃ t ∈ s.tasks, t.request = r

/-- A claim about the server and one about each coroutine, which may speak of the requests made so
far and which every command leaves true. -/
structure Sound (p : Programs σ ρ κ ο ε δ) (S : (ρ → Prop) → σ → Prop)
    (T : (ρ → Prop) → σ → ρ → Phase κ ο → Prop) (calm : σ → δ → Prop) : Prop where
  server_mono : ∀ {asked asked' : ρ → Prop} {server : σ}, (∀ r, asked r → asked' r) →
    S asked server → S asked' server
  task_mono : ∀ {asked asked' : ρ → Prop} {server : σ} {r : ρ} {phase : Phase κ ο},
    (∀ r, asked r → asked' r) → T asked server r phase → T asked' server r phase
  start : ∀ {asked : ρ → Prop} (server : σ) {r : ρ}, asked r → T asked server r (p.start r)
  acquire : ∀ {asked : ρ → Prop} {server : σ} {r : ρ} {c : κ},
    T asked server r (.waiting c) → T asked server r (.holding c)
  failed : ∀ (asked : ρ → Prop) (server : σ) (r : ρ), T asked server r (.done p.failed)
  serve : ∀ {asked : ρ → Prop} {server : σ} {r : ρ} {c : κ}, asked r → S asked server →
    T asked server r (.holding c) → S asked (p.serve server c)
  proceed : ∀ {asked : ρ → Prop} {server : σ} {r : ρ} {c : κ} (e : ε), asked r → S asked server →
    T asked server r (.holding c) → T asked (p.serve server c) r (p.proceed server c e)
  others : ∀ {asked : ρ → Prop} {server : σ} {r r' : ρ} {c : κ} {phase : Phase κ ο},
    S asked server → T asked server r (.holding c) → T asked server r' phase →
      T asked (p.serve server c) r' phase
  disturb : ∀ {asked : ρ → Prop} {server : σ} {d : δ}, calm server d → S asked server →
    S asked (p.disturb server d)
  others_disturb : ∀ {asked : ρ → Prop} {server : σ} {d : δ} {r : ρ} {phase : Phase κ ο},
    calm server d → T asked server r phase → T asked (p.disturb server d) r phase

/-- The claims hold of a state. -/
def Holds (S : (ρ → Prop) → σ → Prop) (T : (ρ → Prop) → σ → ρ → Phase κ ο → Prop)
    (s : CommandPool σ ρ κ ο) : Prop :=
  S (Asked s) s.server ∧ ∀ t ∈ s.tasks, T (Asked s) s.server t.request t.phase

/-- The server is left alone where the claims need it. -/
def Calm (calm : σ → δ → Prop) (s : CommandPool σ ρ κ ο) : PoolAction ρ ε δ → Prop
  | .disturb d => calm s.server d
  | _ => True

variable {S : (ρ → Prop) → σ → Prop} {T : (ρ → Prop) → σ → ρ → Phase κ ο → Prop}
  {calm : σ → δ → Prop}

variable {s : CommandPool σ ρ κ ο}

/-- Moving on does not change what a coroutine was asked for. -/
theorem asked_set {i : Nat} {t : Task ρ κ ο} (ht : s.tasks[i]? = some t)
    (server : σ) (permits : Nat) (phase : Phase κ ο) :
    Asked (⟨server, permits, s.tasks.set i ⟨t.request, phase⟩⟩ : CommandPool σ ρ κ ο) =
      Asked s := by
  obtain ⟨others, hl, hset⟩ := perm_set ht
  funext r
  simp only [Asked, hl.mem_iff, (hset _).mem_iff, List.mem_cons, exists_eq_or_imp]

theorem Sound.step (h : p.Sound S T calm) {a : PoolAction ρ ε δ}
    (hs : Holds S T s) (ha : Calm calm s a) : Holds S T (p.step s a) := by
  obtain ⟨hserver, htasks⟩ := hs
  cases a with
  | start r =>
    have hmono (r' : ρ) (hr : Asked s r') : Asked (p.step s (.start r : PoolAction ρ ε δ)) r' := by
      obtain ⟨t, ht, hr⟩ := hr
      exact ⟨t, List.mem_append_left _ ht, hr⟩
    refine ⟨h.server_mono hmono hserver, fun t ht => ?_⟩
    rcases List.mem_append.mp ht with ht | ht
    · exact h.task_mono hmono (htasks t ht)
    · rw [List.mem_singleton.mp ht]
      exact h.start _ ⟨_, List.mem_append_right _ (List.mem_singleton.mpr rfl), rfl⟩
  | disturb d => exact ⟨h.disturb ha hserver, fun t ht => h.others_disturb ha (htasks t ht)⟩
  | task i m =>
    obtain hsame | ⟨t, server, permits, phase, ht, hmoved, hstep⟩ := step_task (p := p) s i m
    · rw [hsame]
      exact ⟨hserver, htasks⟩
    have hmem := List.mem_of_getElem? ht
    have hasked : Asked s t.request := ⟨t, hmem, rfl⟩
    have hold := htasks t hmem
    rw [hstep, Holds, asked_set ht]
    -- the server and this coroutine keep their claims, and so do the other coroutines
    suffices hmove : S (Asked s) server ∧ T (Asked s) server t.request phase ∧
        ∀ t' ∈ s.tasks, T (Asked s) server t'.request t'.phase by
      refine ⟨hmove.1, fun t' ht' => ?_⟩
      rcases List.mem_or_eq_of_mem_set ht' with ht' | rfl
      · exact hmove.2.2 t' ht'
      · exact hmove.2.1
    clear hstep
    obtain ⟨r, now⟩ := t
    cases hmoved with
    | acquire c _ => exact ⟨hserver, h.acquire hold, htasks⟩
    | execute c e => exact ⟨h.serve hasked hserver hold, h.proceed e hasked hserver hold,
        fun t' ht' => h.others hserver hold (htasks t' ht')⟩
    | unanswered c => exact ⟨h.serve hasked hserver hold, h.failed _ _ _,
        fun t' ht' => h.others hserver hold (htasks t' ht')⟩
    | fail _ _ => exact ⟨hserver, h.failed _ _ _, htasks⟩

/-- What has been asked for is what was started. -/
theorem asked_run {is : List (PoolAction ρ ε δ)} {r : ρ}
    (h : Asked (run p.step s is) r) : Asked s r ∨ .start r ∈ is := by
  induction is generalizing s with
  | nil => exact .inl h
  | cons a is ih =>
    refine (ih h).elim (fun hnext => ?_) fun hr => .inr (List.mem_cons_of_mem _ hr)
    cases a with
    | start r' =>
      obtain ⟨t, ht, hr⟩ := hnext
      rcases List.mem_append.mp ht with ht | ht
      · exact .inl ⟨t, ht, hr⟩
      · rw [List.mem_singleton.mp ht] at hr
        exact .inr (by rw [← hr]; exact List.mem_cons_self)
    | disturb d => exact .inl hnext
    | task i m =>
      obtain hsame | ⟨t, server, permits, phase, ht, -, hstep⟩ := step_task (p := p) s i m
      · exact .inl (hsame ▸ hnext)
      · rw [hstep, asked_set ht] at hnext
        exact .inl hnext

/-- A server that is never disturbed but as the claims allow. -/
theorem guarded_of_calm {q : δ → Prop} (is : List (PoolAction ρ ε δ))
    (h : ∀ d, .disturb d ∈ is → q d) : Guarded p.step (Calm fun _ d => q d) s is := by
  have hall : ∀ a ∈ is, ∀ d, a = .disturb d → q d := fun a ha d hd => h d (hd ▸ ha)
  refine Guarded.mono_of_inv (P := fun _ => True) (fun _ _ _ _ => trivial) (fun s a _ ha => ?_)
    trivial (guarded_of_forall hall)
  cases a with
  | disturb d => exact ha d rfl
  | start r => trivial
  | task i m => trivial

/-- **The invariant rule.** -/
theorem Sound.always (h : p.Sound S T calm)
    {is : List (PoolAction ρ ε δ)} (h0 : Holds S T s) (hcalm : Guarded p.step (Calm calm) s is) :
    Always p.step (Holds S T) s is :=
  always_of_guarded (fun _ _ hs ha => h.step hs ha) h0 hcalm

/-! ## The permits -/

/-- The commands that are under way. -/
def held (s : CommandPool σ ρ κ ο) : Nat := (s.tasks.map fun t => t.phase.held).sum

theorem held_start (r : ρ) : (p.start r).held = 0 := by
  unfold start
  split <;> rfl

/-- **No permit is lost or made**, whatever fails. -/
theorem permits_add_held (s : CommandPool σ ρ κ ο) (a : PoolAction ρ ε δ) :
    (p.step s a).permits + held (p.step s a) = s.permits + held s := by
  cases a with
  | start r => simp [step, held, held_start]
  | disturb d => rfl
  | task i m =>
    obtain hsame | ⟨t, server, permits, phase, ht, hmoved, hstep⟩ := step_task (p := p) s i m
    · rw [hsame]
    rw [hstep]
    have hsum := sum_map_set (fun t : Task ρ κ ο => t.phase.held) ht ⟨t.request, phase⟩
    unfold held
    obtain ⟨r, now⟩ := t
    cases hmoved with
    | acquire c hpos =>
      simp only [Phase.held] at hsum ⊢
      omega
    | execute c e =>
      have hle := Phase.held_le (p.proceed s.server c e)
      simp only [Phase.held] at hsum hle ⊢
      omega
    | unanswered c =>
      simp only [Phase.held] at hsum ⊢
      omega
    | fail _ _ =>
      simp only [Phase.held] at hsum ⊢
      omega

/-! ## Coroutines that end -/

/-- Each command that a coroutine goes on to is nearer to its end. -/
structure Ends (p : Programs σ ρ κ ο ε δ) (commands : κ → Nat) : Prop where
  pos : ∀ c, 0 < commands c
  waiting : ∀ {server : σ} {c c' : κ} {e : ε}, p.proceed server c e = .waiting c' →
    commands c' < commands c
  holding : ∀ {server : σ} {c c' : κ} {e : ε}, p.proceed server c e = .holding c' →
    commands c' < commands c

variable {commands : κ → Nat}

theorem Ends.moved (h : p.Ends commands) {server server' : σ} {permits permits' : Nat}
    {phase phase' : Phase κ ο} {m : Move ε}
    (hmoved : p.Moved server permits phase m server' permits' phase') :
    phase'.left commands < phase.left commands := by
  cases hmoved with
  | acquire c _ =>
    have := h.pos c
    simp only [Phase.left]
    omega
  | execute c e =>
    have := h.pos c
    cases hnext : p.proceed server c e with
    | waiting c' =>
      have := h.waiting hnext
      simp only [Phase.left]
      omega
    | holding c' =>
      have := h.holding hnext
      simp only [Phase.left]
      omega
    | done o =>
      simp only [Phase.left]
      omega
  | unanswered c =>
    have := h.pos c
    simp only [Phase.left]
    omega
  | fail _ hnow =>
    cases phase with
    | waiting c => simpa [Phase.left] using h.pos c
    | holding c =>
      have := h.pos c
      simp only [Phase.left]
      omega
    | done o => cases hnow

/-- The moves left to the coroutines together. -/
def left (commands : κ → Nat) (s : CommandPool σ ρ κ ο) : Nat :=
  (s.tasks.map fun t => t.phase.left commands).sum

/-- The next move of some coroutine: one that has a permit sends its command, and when none has one
there are permits for those that wait. -/
theorem Ends.exists_move (h : p.Ends commands) (e : ε)
    (hpermits : 0 < s.permits + held s) (hopen : ∃ t ∈ s.tasks, t.phase.isDone = false) :
    ∃ i m, m ∈ [Move.acquire, .execute e] ∧
      left commands (p.step s (.task i m)) < left commands s := by
  -- the move that a coroutine makes, when it can, takes one from what is left
  have hless {i : Nat} {t : Task ρ κ ο} {m : Move ε} (ht : s.tasks[i]? = some t)
      {r : σ × Nat × Phase κ ο} (hmove : p.advance s.server s.permits t.phase m = some r) :
      left commands (p.step s (.task i m)) < left commands s := by
    have hlt : r.2.2.left commands < t.phase.left commands := h.moved (moved_of_advance hmove)
    have hsum := sum_map_set (fun t : Task ρ κ ο => t.phase.left commands) ht ⟨t.request, r.2.2⟩
    have hstep : p.step s (.task i m) = ⟨r.1, r.2.1, s.tasks.set i ⟨t.request, r.2.2⟩⟩ := by
      unfold step
      simp only [ht, hmove]
    rw [hstep]
    unfold left
    dsimp only at hsum ⊢
    omega
  by_cases hheld : ∃ t ∈ s.tasks, ∃ c, t.phase = .holding c
  · obtain ⟨t, ht, c, hc⟩ := hheld
    obtain ⟨i, hi⟩ := List.getElem?_of_mem ht
    exact ⟨i, .execute e, by simp, hless hi (by rw [hc]; rfl)⟩
  · have hzero : held s = 0 := by
      refine List.sum_eq_zero_iff_forall_eq_nat.mpr fun n hn => ?_
      obtain ⟨t, ht, rfl⟩ := List.mem_map.mp hn
      cases hc : t.phase with
      | holding c => exact absurd ⟨t, ht, c, hc⟩ hheld
      | waiting c => rfl
      | done o => rfl
    obtain ⟨t, ht, hdone⟩ := hopen
    obtain ⟨i, hi⟩ := List.getElem?_of_mem ht
    cases hc : t.phase with
    | waiting c =>
      have hmove : p.advance s.server s.permits t.phase .acquire =
          some (s.server, s.permits - 1, .holding c) := by
        rw [hc]
        exact if_pos (by omega)
      exact ⟨i, .acquire, by simp, hless hi hmove⟩
    | holding c => exact absurd ⟨t, ht, c, hc⟩ hheld
    | done o =>
      rw [hc] at hdone
      cases hdone

/-- **Coroutines are never stuck**: from every state with a permit in it, they all come to an end by
their own moves, whatever the replies are. -/
theorem Ends.exists_drain (h : p.Ends commands) (e : ε) (s : CommandPool σ ρ κ ο)
    (hpermits : 0 < s.permits + held s) :
    ∃ is : List (PoolAction ρ ε δ),
      (∀ a ∈ is, ∃ i m, m ∈ [Move.acquire, .execute e] ∧ a = .task i m) ∧
      ∀ t ∈ (run p.step s is).tasks, t.phase.isDone = true := by
  induction hn : left commands s using Nat.strong_induction_on generalizing s with
  | _ n ih =>
    by_cases hopen : ∃ t ∈ s.tasks, t.phase.isDone = false
    · obtain ⟨i, m, hm, hless⟩ := h.exists_move e hpermits hopen
      obtain ⟨is, his, hdone⟩ := ih _ (hn ▸ hless) (p.step s (.task i m))
        (by rw [permits_add_held]; exact hpermits) rfl
      exact ⟨.task i m :: is, List.forall_mem_cons.mpr ⟨⟨i, m, hm, rfl⟩, his⟩, hdone⟩
    · refine ⟨[], by simp, fun t ht => ?_⟩
      by_contra hnot
      exact hopen ⟨t, ht, by simpa using hnot⟩

end Programs

end LMCache.Lib
