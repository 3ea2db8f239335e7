import Maju.Lib.Decimal
import Maju.Lib.Run
import Maju.Lib.Text

/-!
# Restart — the restart budget of an MCP server

A server that fails is killed and marked dead, and a later call starts it again, up to a number of
attempts.  The attempts are counted in the dead state only.

* `Server.step` — calls, failures, timeouts, the two ends of a restart and the clock;
* `WithinBudget` — kills and starts up to the budget, and a server that has used it up stays away;
* `restart_budget` — runs in which only the first client is killed and no restart is given up keep
  within the budget;
* `crash_loop` — a server that starts and dies again is never exhausted with two attempts or more.

The time between two attempts is a number of milliseconds, the identity of a client its number.
-/

namespace Maju
namespace Agent
namespace Mcp

open Lib

/-! ## One server -/

/-- A registry as far as one of its servers goes, with the bare names of the registered tools;
`spawn_all` allows at least one attempt. -/
structure Registry where
  name : Text
  defs : List Text
  maxAttempts : Nat
  backoffBase : Nat
  backoffMax : Nat
  maxAttempts_pos : 1 ≤ maxAttempts

inductive ClientState where
  | healthy (client : Nat) (tools : List Text)
  | dead (attempts : Nat) (nextRetry : Nat) (reason : Text) (tools : List Text)
  deriving DecidableEq, Repr

/-- A server, the restart that holds its lock, its hook timeouts in a row, the number of the next
client and what has been done to its processes. -/
structure Server where
  client : ClientState
  restarting : Option (Nat × List Text)
  hookTimeouts : Nat
  clock : Nat
  spawned : Nat
  kills : Nat
  starts : Nat
  deriving DecidableEq, Repr

inductive RestartCheck where
  | healthy
  | ready (attemptN : Nat) (prevTools : List Text)
  deriving DecidableEq, Repr

namespace Server

variable (reg : Registry)

/-- `spawn_all`: the first client of a server. -/
def start (tools : List Text) : Server where
  client := .healthy 0 tools
  restarting := none
  hookTimeouts := 0
  clock := 0
  spawned := 1
  kills := 0
  starts := 0

/-- `backoff` in milliseconds, with the random byte of its jitter. -/
def backoff (attempt base max : Nat) (byte : UInt8) : Nat :=
  let ms : Int := (min (base * 2 ^ min (attempt - 1) 20) max : Nat)
  let jitterPct : Int := (byte.toNat % 41 : Nat) - 20
  (ms + (ms * jitterPct).tdiv 100).toNat

/-- The refusal of a server without attempts left. -/
def exhaustedText : Text :=
  "The MCP server '".toList ++ reg.name ++
    "' is unavailable (exhausted). Its tools have been removed for this session.".toList

def checkRestartState (s : Server) : Except Text RestartCheck :=
  match s.client with
  | .healthy _ _ => .ok .healthy
  | .dead attempts nextRetry reason tools =>
      if reg.maxAttempts ≤ attempts then .error (exhaustedText reg)
      else if s.clock < nextRetry then
        .error ("server '".toList ++ reg.name ++ "' is recovering (last error: ".toList ++ reason ++
          "). Try again later or use a different tool.".toList)
      else .ok (.ready (attempts + 1) tools)

/-- The state of a server that has just been killed. -/
def killed (s : Server) (reason : Text) (tools : List Text) (byte : UInt8) : Server :=
  { s with
    client := .dead 1 (s.clock + backoff 1 reg.backoffBase reg.backoffMax byte) reason tools
    kills := s.kills + 1 }

def killServer (s : Server) (reason : Text) (byte : UInt8) : Server :=
  match s.client with
  | .dead _ _ _ _ => s
  | .healthy _ tools => s.killed reg reason tools byte

def killAndMarkDeadIfCurrent (s : Server) (failedClient : Nat) (reason : Text) (byte : UInt8) :
    Server :=
  match s.client with
  | .healthy client tools => if client = failedClient then s.killed reg reason tools byte else s
  | .dead _ _ _ _ => s

/-- `maybe_restart` up to the process it starts; a call that finds the lock taken waits. -/
def beginRestart (s : Server) : Server :=
  match s.restarting with
  | some _ => s
  | none =>
      match s.checkRestartState reg with
      | .ok (.ready attemptN prevTools) =>
          { s with restarting := some (attemptN, prevTools), starts := s.starts + 1 }
      | _ => s

/-- `maybe_restart` from the result of `spawn_one` on. -/
def finishRestart (s : Server) (result : Except Text (List Text)) (byte : UInt8) : Server :=
  match s.restarting with
  | none => s
  | some (attemptN, prevTools) =>
      match result with
      | .ok tools =>
          { s with
            client := .healthy s.spawned tools
            restarting := none
            spawned := s.spawned + 1 }
      | .error e =>
          let delay := if reg.maxAttempts ≤ attemptN then 86400000
            else backoff attemptN reg.backoffBase reg.backoffMax byte
          { s with
            client := .dead attemptN (s.clock + delay) ("restart failed: ".toList ++ e) prevTools
            restarting := none }

/-- A hook that does not answer in time; the second in a row kills the server. -/
def hookTimeout (s : Server) (byte : UInt8) : Server :=
  if 2 ≤ s.hookTimeouts + 1 then
    { s.killServer reg "hook timeout (consecutive)".toList byte with hookTimeouts := 0 }
  else { s with hookTimeouts := s.hookTimeouts + 1 }

/-- The tools of the server that the model is told of. -/
def tools (s : Server) : List Text :=
  reg.defs.filter fun bare => bare.head? ≠ some '_' &&
    match s.client with
    | .healthy _ tools => bare ∈ tools
    | .dead attempts _ _ tools => attempts < reg.maxAttempts && bare ∈ tools

/-! ## Runs -/

/-- What can happen to a server.  A call arrives from the model or as a hook; `kill` is
`kill_server`, as after a tool timeout; `restartDropped` is the timeout of the call that restarts
it. -/
inductive Input where
  | tick (elapsed : Nat)
  | call
  | callFailed (client : Nat) (reason : Text) (byte : UInt8)
  | kill (reason : Text) (byte : UInt8)
  | hookTimeout (byte : UInt8)
  | hookAnswered
  | restartDone (result : Except Text (List Text)) (byte : UInt8)
  | restartDropped

def step (s : Server) : Input → Server
  | .tick elapsed => { s with clock := s.clock + elapsed }
  | .call => s.beginRestart reg
  | .callFailed client reason byte => s.killAndMarkDeadIfCurrent reg client reason byte
  | .kill reason byte => s.killServer reg reason byte
  | .hookTimeout byte => s.hookTimeout reg byte
  | .hookAnswered => { s with hookTimeouts := 0 }
  | .restartDone result byte => s.finishRestart reg result byte
  | .restartDropped => { s with restarting := none }

def Exhausted (s : Server) : Prop :=
  match s.client with
  | .healthy _ _ => False
  | .dead attempts _ _ _ => reg.maxAttempts ≤ attempts

instance (s : Server) : Decidable (s.Exhausted reg) := by
  unfold Exhausted
  split <;> infer_instance

/-- Kills and starts keep to the budget; once it is used up and no restart is on its way the server
is gone for good: its tools are hidden, its calls refused, and nothing more happens to its
processes. -/
structure WithinBudget (s : Server) : Prop where
  spent : s.kills + s.starts ≤ reg.maxAttempts
  exhausts : s.kills + s.starts = reg.maxAttempts → s.restarting = none →
    (∀ client tools, s.client ≠ .healthy client tools) → s.Exhausted reg
  hidden : s.Exhausted reg → s.tools reg = []
  refused : s.Exhausted reg → s.checkRestartState reg = .error (exhaustedText reg)
  permanent : s.Exhausted reg → ∀ inputs,
    (Run.run (step reg) s inputs).Exhausted reg ∧
      (Run.run (step reg) s inputs).kills = s.kills ∧
      (Run.run (step reg) s inputs).starts = s.starts

def target (s : Server) : Input → Option Nat
  | .callFailed failedClient _ _ =>
      match s.client with
      | .healthy client _ => if client = failedClient then some client else none
      | .dead _ _ _ _ => none
  | .kill _ _ =>
      match s.client with
      | .healthy client _ => some client
      | .dead _ _ _ _ => none
  | .hookTimeout _ =>
      match s.client with
      | .healthy client _ => if 2 ≤ s.hookTimeouts + 1 then some client else none
      | .dead _ _ _ _ => none
  | _ => none

/-- An input does not drop a restart that is on its way. -/
def Keeps (s : Server) : Input → Prop
  | .restartDropped => s.restarting = none
  | _ => True

instance Keeps.decidable (s : Server) : (input : Input) → Decidable (s.Keeps input)
  | .restartDropped => inferInstanceAs (Decidable (s.restarting = none))
  | .tick _ => isTrue trivial
  | .call => isTrue trivial
  | .callFailed _ _ _ => isTrue trivial
  | .kill _ _ => isTrue trivial
  | .hookTimeout _ => isTrue trivial
  | .hookAnswered => isTrue trivial
  | .restartDone _ _ => isTrue trivial

/-- Only the client that the session began with is killed, and no restart is dropped. -/
def Countable (s : Server) (input : Input) : Prop :=
  (∀ client ∈ s.target input, client = 0) ∧ s.Keeps input

instance (s : Server) (input : Input) : Decidable (s.Countable input) :=
  inferInstanceAs (Decidable (_ ∧ _))

variable {reg} {s : Server}

/-! ## Exhaustion -/

theorem exhausted_iff :
    s.Exhausted reg ↔ ∃ attempts nextRetry reason tools,
      s.client = .dead attempts nextRetry reason tools ∧ reg.maxAttempts ≤ attempts := by
  unfold Exhausted
  cases s.client with
  | healthy client tools => simp
  | dead attempts nextRetry reason tools => simp

theorem Exhausted.refused (h : s.Exhausted reg) :
    s.checkRestartState reg = .error (exhaustedText reg) := by
  obtain ⟨attempts, nextRetry, reason, tools, hclient, hmax⟩ := exhausted_iff.1 h
  rw [checkRestartState, hclient]
  exact if_pos hmax

theorem Exhausted.hidden (h : s.Exhausted reg) : s.tools reg = [] := by
  obtain ⟨attempts, nextRetry, reason, tools, hclient, hmax⟩ := exhausted_iff.1 h
  have hnot : ¬ attempts < reg.maxAttempts := Nat.not_lt.2 hmax
  rw [Server.tools, hclient]
  simp [hnot]

theorem Exhausted.step_eq (h : s.Exhausted reg) (hlock : s.restarting = none) (input : Input) :
    ∃ clock hookTimeouts, step reg s input =
      { s with clock := clock, hookTimeouts := hookTimeouts } := by
  obtain ⟨attempts, nextRetry, reason, tools, hclient, hmax⟩ := exhausted_iff.1 h
  have hkill : ∀ reason byte, s.killServer reg reason byte = s := by
    intro reason byte
    simp only [killServer, hclient]
  have hsame : step reg s input = s → ∃ clock hookTimeouts, step reg s input =
      { s with clock := clock, hookTimeouts := hookTimeouts } :=
    fun heq => ⟨s.clock, s.hookTimeouts, heq⟩
  cases input with
  | tick elapsed => exact ⟨s.clock + elapsed, s.hookTimeouts, rfl⟩
  | call =>
      apply hsame
      simp only [step, beginRestart, hlock, h.refused]
  | callFailed client reason byte =>
      apply hsame
      simp only [step, killAndMarkDeadIfCurrent, hclient]
  | kill reason byte => exact hsame (hkill reason byte)
  | hookTimeout byte =>
      rw [step, Server.hookTimeout, hkill]
      split
      · exact ⟨s.clock, 0, rfl⟩
      · exact ⟨s.clock, s.hookTimeouts + 1, rfl⟩
  | hookAnswered => exact ⟨s.clock, 0, rfl⟩
  | restartDone result byte =>
      apply hsame
      simp only [step, finishRestart, hlock]
  | restartDropped =>
      apply hsame
      rw [step, ← hlock]

theorem Exhausted.run (h : s.Exhausted reg) (hlock : s.restarting = none) (inputs : List Input) :
    (Run.run (step reg) s inputs).Exhausted reg ∧
      (Run.run (step reg) s inputs).kills = s.kills ∧
      (Run.run (step reg) s inputs).starts = s.starts := by
  have hstep : ∀ (t : Server) (input : Input),
      t.Exhausted reg ∧ t.restarting = none ∧ t.kills = s.kills ∧ t.starts = s.starts →
      (step reg t input).Exhausted reg ∧ (step reg t input).restarting = none ∧
        (step reg t input).kills = s.kills ∧ (step reg t input).starts = s.starts := by
    intro t input ht
    obtain ⟨clock, hookTimeouts, heq⟩ := ht.1.step_eq ht.2.1 input
    rw [heq]
    exact ht
  have hkept := Run.invariant_of_step
    (fun t : Server => t.Exhausted reg ∧ t.restarting = none ∧ t.kills = s.kills ∧
      t.starts = s.starts)
    hstep ⟨h, hlock, rfl, rfl⟩ inputs
  exact ⟨hkept.1, hkept.2.2.1, hkept.2.2.2⟩

/-! ## The attempts of a dead server -/

/-- As long as only the first client is killed, a dead server counts everything that has been done
to its processes, and a restart on its way is the next attempt. -/
structure Counted (reg : Registry) (s : Server) : Prop where
  spawned : 1 ≤ s.spawned
  alive : ∀ client tools, s.client = .healthy client tools →
    s.restarting = none ∧ s.kills + s.starts ≤ reg.maxAttempts ∧
      (client = 0 → s.kills + s.starts = 0)
  dead : ∀ attempts nextRetry reason tools, s.client = .dead attempts nextRetry reason tools →
    attempts ≤ reg.maxAttempts ∧ (s.restarting = none → s.kills + s.starts = attempts) ∧
      ∀ attemptN prevTools, s.restarting = some (attemptN, prevTools) →
        attemptN = attempts + 1 ∧ attemptN ≤ reg.maxAttempts ∧ s.kills + s.starts = attemptN

theorem Counted.start (tools : List Text) : Counted reg (start tools) where
  spawned := Nat.le_refl 1
  alive := by
    rintro client tools' ⟨⟩
    exact ⟨rfl, Nat.zero_le _, fun _ => rfl⟩
  dead := by
    rintro attempts nextRetry reason tools' ⟨⟩

theorem Counted.lock (h : Counted reg s) (hex : s.Exhausted reg) : s.restarting = none := by
  obtain ⟨attempts, nextRetry, reason, tools, hclient, hmax⟩ := exhausted_iff.1 hex
  cases hlock : s.restarting with
  | none => rfl
  | some held =>
      have hheld := (h.dead _ _ _ _ hclient).2.2 held.1 held.2 hlock
      omega

theorem Counted.killed (h : Counted reg s) {tools : List Text}
    (hclient : s.client = .healthy 0 tools) (reason : Text) (byte : UInt8) :
    Counted reg (s.killed reg reason tools byte) := by
  obtain ⟨hlock, _, hfirst⟩ := h.alive 0 tools hclient
  have hnone := hfirst rfl
  refine ⟨h.spawned, ?_, ?_⟩
  · rintro client tools' ⟨⟩
  · rintro attempts nextRetry reason' tools' ⟨⟩
    refine ⟨reg.maxAttempts_pos, fun _ => ?_, fun attemptN prevTools hheld => ?_⟩
    · show s.kills + 1 + s.starts = 1
      omega
    · exact absurd (hheld.symm.trans hlock) (by simp)

theorem Counted.killServer (h : Counted reg s) (reason : Text) (byte : UInt8)
    (hfirst : ∀ client tools, s.client = .healthy client tools → client = 0) :
    Counted reg (s.killServer reg reason byte) := by
  unfold Server.killServer
  cases hclient : s.client with
  | dead attempts nextRetry reason tools => exact h
  | healthy client tools =>
      have hzero := hfirst client tools hclient
      rw [hzero] at hclient
      exact h.killed hclient reason byte

theorem Counted.beginRestart (h : Counted reg s) : Counted reg (s.beginRestart reg) := by
  unfold Server.beginRestart
  cases hlock : s.restarting with
  | some held => exact h
  | none =>
      cases hclient : s.client with
      | healthy client tools =>
          rw [checkRestartState, hclient]
          exact h
      | dead attempts nextRetry reason tools =>
          obtain ⟨_, hcount, _⟩ := h.dead _ _ _ _ hclient
          have hused := hcount hlock
          rw [checkRestartState, hclient]
          by_cases hmax : reg.maxAttempts ≤ attempts
          · simp only [if_pos hmax]
            exact h
          · by_cases hearly : s.clock < nextRetry
            · simp only [if_neg hmax, if_pos hearly]
              exact h
            · simp only [if_neg hmax, if_neg hearly]
              -- the attempt that begins here is counted with the processes at once
              refine ⟨h.spawned, ?_, ?_⟩
              · rintro client tools' ⟨⟩
              · rintro attempts' nextRetry' reason' tools' ⟨⟩
                refine ⟨by omega, by rintro ⟨⟩, ?_⟩
                rintro attemptN prevTools ⟨⟩
                refine ⟨rfl, by omega, ?_⟩
                show s.kills + (s.starts + 1) = attempts + 1
                omega

theorem Counted.finishRestart (h : Counted reg s) (result : Except Text (List Text))
    (byte : UInt8) : Counted reg (s.finishRestart reg result byte) := by
  unfold Server.finishRestart
  cases hlock : s.restarting with
  | none => exact h
  | some held =>
      rcases held with ⟨attemptN, prevTools⟩
      cases hclient : s.client with
      | healthy client tools =>
          cases (h.alive client tools hclient).1.symm.trans hlock
      | dead attempts nextRetry reason tools =>
          obtain ⟨hn, hle, hused⟩ := (h.dead _ _ _ _ hclient).2.2 attemptN prevTools hlock
          have hspawned := h.spawned
          cases result with
          | ok tools' =>
              refine ⟨Nat.le_succ_of_le hspawned, ?_, ?_⟩
              · rintro client tools'' ⟨⟩
                refine ⟨rfl, ?_, fun hzero => ?_⟩
                · show s.kills + s.starts ≤ reg.maxAttempts
                  omega
                · omega
              · rintro attempts' nextRetry' reason' tools'' ⟨⟩
          | error e =>
              refine ⟨hspawned, ?_, ?_⟩
              · rintro client tools'' ⟨⟩
              · rintro attempts' nextRetry' reason' tools'' ⟨⟩
                exact ⟨hle, fun _ => hused, fun _ _ hnone => by cases hnone⟩

theorem Counted.of_eq {t : Server} (h : Counted reg s) (hclient : t.client = s.client)
    (hlock : t.restarting = s.restarting) (hspawned : t.spawned = s.spawned)
    (hkills : t.kills = s.kills) (hstarts : t.starts = s.starts) : Counted reg t := by
  refine ⟨hspawned ▸ h.spawned, ?_, ?_⟩
  · intro client tools halive
    rw [hlock, hkills, hstarts]
    exact h.alive client tools (hclient ▸ halive)
  · intro attempts nextRetry reason tools hdead
    rw [hlock, hkills, hstarts]
    exact h.dead attempts nextRetry reason tools (hclient ▸ hdead)

theorem Counted.step (h : Counted reg s) {input : Input} (hcountable : s.Countable input) :
    Counted reg (step reg s input) := by
  obtain ⟨htarget, hkeeps⟩ := hcountable
  cases input with
  | tick elapsed => exact h.of_eq rfl rfl rfl rfl rfl
  | call => exact h.beginRestart
  | callFailed failedClient reason byte =>
      show Counted reg (s.killAndMarkDeadIfCurrent reg failedClient reason byte)
      unfold killAndMarkDeadIfCurrent
      cases hclient : s.client with
      | dead attempts nextRetry reason tools => exact h
      | healthy client tools =>
          by_cases hcurrent : client = failedClient
          · have hzero : client = 0 := htarget client (by simp [target, hclient, hcurrent])
            rw [hzero] at hclient hcurrent
            simp only [if_pos hcurrent, hzero]
            exact h.killed hclient reason byte
          · simp only [if_neg hcurrent]
            exact h
  | kill reason byte =>
      refine h.killServer reason byte fun client tools hclient => ?_
      exact htarget client (by simp [target, hclient])
  | hookTimeout byte =>
      show Counted reg (s.hookTimeout reg byte)
      unfold Server.hookTimeout
      by_cases hsecond : 2 ≤ s.hookTimeouts + 1
      · rw [if_pos hsecond]
        have hkilled := h.killServer "hook timeout (consecutive)".toList byte
          fun client tools hclient => htarget client (by simp [target, hclient, hsecond])
        exact hkilled.of_eq rfl rfl rfl rfl rfl
      · rw [if_neg hsecond]
        exact h.of_eq rfl rfl rfl rfl rfl
  | hookAnswered => exact h.of_eq rfl rfl rfl rfl rfl
  | restartDone result byte => exact h.finishRestart result byte
  | restartDropped => exact h.of_eq rfl (Eq.symm hkeeps) rfl rfl rfl

theorem Counted.withinBudget (h : Counted reg s) : WithinBudget reg s where
  spent := by
    cases hclient : s.client with
    | healthy client tools => exact (h.alive client tools hclient).2.1
    | dead attempts nextRetry reason tools =>
        obtain ⟨hle, hcount, hheld⟩ := h.dead _ _ _ _ hclient
        cases hlock : s.restarting with
        | none => exact (hcount hlock).symm ▸ hle
        | some held =>
            obtain ⟨_, hn, hused⟩ := hheld held.1 held.2 hlock
            exact hused ▸ hn
  exhausts := by
    intro hused hlock hdead
    cases hclient : s.client with
    | healthy client tools => exact absurd hclient (hdead client tools)
    | dead attempts nextRetry reason tools =>
        have hcount := (h.dead _ _ _ _ hclient).2.1 hlock
        exact exhausted_iff.2 ⟨attempts, nextRetry, reason, tools, hclient, by omega⟩
  hidden := Exhausted.hidden
  refused := Exhausted.refused
  permanent hex inputs := hex.run (h.lock hex) inputs

/-- Runs in which only the first client is killed and no restart is dropped keep within the budget,
in every state that they reach. -/
theorem restart_budget (reg : Registry) (tools : List Text) (inputs : List Input)
    (h : Run.Along Countable (step reg) (start tools) inputs) :
    WithinBudget reg (Run.run (step reg) (start tools) inputs) :=
  (Run.invariant (Counted reg) (fun _ _ hs hi => hs.step hi) (Counted.start tools)
    h).withinBudget

def threeAttempts : Registry where
  name := "dev".toList
  defs := ["shell".toList]
  maxAttempts := 3
  backoffBase := 500
  backoffMax := 30000
  maxAttempts_pos := by decide

def gone : List Input :=
  [.call, .callFailed 0 "call failed".toList 20, .tick 500, .call, .restartDone (.error []) 20,
    .tick 1000, .call, .restartDone (.error []) 20, .call]

theorem restart_budget_gone :
    WithinBudget threeAttempts (Run.run (step threeAttempts) (start ["shell".toList]) gone) :=
  restart_budget threeAttempts ["shell".toList] gone (by decide)

/-! ## A server that starts and dies -/

/-- A call of the server fails, and a later one starts it again. -/
def crashRound (reg : Registry) (tools : List Text) (client : Nat) : List Input :=
  [.callFailed client "call failed".toList 0,
    .tick (backoff 1 reg.backoffBase reg.backoffMax 0), .call, .restartDone (.ok tools) 0]

/-- Two attempts are enough for a server to come back after every failure. -/
theorem crash_loop (reg : Registry) (hmax : 2 ≤ reg.maxAttempts) (tools : List Text) (n : Nat) :
    let s := Run.run (step reg) (start tools) ((List.range n).flatMap (crashRound reg tools))
    s.client = .healthy n tools ∧ s.restarting = none ∧ s.spawned = n + 1 ∧ s.kills = n ∧
      s.starts = n := by
  induction n with
  | zero => exact ⟨rfl, rfl, rfl, rfl, rfl⟩
  | succ n ih =>
      rw [List.range_succ, List.flatMap_append, Run.run_append]
      generalize Run.run (step reg) (start tools)
        ((List.range n).flatMap (crashRound reg tools)) = s at ih ⊢
      obtain ⟨hclient, hlock, hspawned, hkills, hstarts⟩ := ih
      have hleft : ¬ reg.maxAttempts ≤ 1 := by omega
      simp [Run.run, crashRound, step, killAndMarkDeadIfCurrent, hclient, killed, beginRestart,
        hlock, checkRestartState, hleft, finishRestart, hspawned, hkills, hstarts]

/-- Kills and starts do not keep to the budget: a server that starts and dies is killed and started
again any number of times, and never exhausted. -/
theorem crash_loop_exceeds :
    (¬ ∀ (reg : Registry) (tools : List Text) (inputs : List Input),
      WithinBudget reg (Run.run (step reg) (start tools) inputs)) ∧
    ∀ n, ∃ inputs, (Run.run (step threeAttempts) (start ["shell".toList]) inputs).kills = n ∧
      ¬ (Run.run (step threeAttempts) (start ["shell".toList]) inputs).Exhausted threeAttempts := by
  constructor
  · intro h
    have hspent := (h threeAttempts ["shell".toList]
      ((List.range 2).flatMap (crashRound threeAttempts ["shell".toList]))).spent
    obtain ⟨_, _, _, hkills, hstarts⟩ :=
      crash_loop threeAttempts (by decide) ["shell".toList] 2
    rw [hkills, hstarts] at hspent
    exact absurd hspent (by decide)
  · intro n
    obtain ⟨hclient, _, _, hkills, _⟩ :=
      crash_loop threeAttempts (by decide) ["shell".toList] n
    refine ⟨_, hkills, fun hex => ?_⟩
    obtain ⟨attempts, nextRetry, reason, tools, hdead, _⟩ := exhausted_iff.1 hex
    cases hclient.symm.trans hdead

end Server

end Mcp
end Agent
end Maju
