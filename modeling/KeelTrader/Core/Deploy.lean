import KeelTrader.Core.Handshake
import KeelTrader.Lib.Raising
import Mathlib.Logic.Relation

set_option relaxedAutoImplicit false
set_option autoImplicit false

/-!
# The live cutover

`ops/deploy_live_trader.sh`: a dry run that verifies the lock handshake, and a cutover that is
refused unless a checklist is complete, stops the other live units, restarts the unit and verifies
the handshake. What a run does is recorded in a history file.

## Main definitions

* `KeelTrader.Core.Deploy.Outside` — what the script asks of the host: the lock file, the
  supervisor and the clock.
* `KeelTrader.Core.Deploy.parseArgs`, `KeelTrader.Core.Deploy.enforceChecklist`,
  `KeelTrader.Core.Deploy.stopOtherUnits`, `KeelTrader.Core.Deploy.deploy` — the script.
* `KeelTrader.Core.Deploy.Ends` — how a run of the script ends, and what it has done by then.
* `KeelTrader.Core.Deploy.operate` — runs of the script that follow each other.
* `KeelTrader.Core.Deploy.Observes` — the script runs on the host of the account lock.

## Main results

* `KeelTrader.Core.Deploy.deploy_ends` — every run ends in one of these ways.
* `KeelTrader.Core.Deploy.operate_oneUnit` — runs with one registry restart one unit at most, and
  the history accounts for it.
* `KeelTrader.Core.Deploy.operate_holdsLock` — a cutover that is reported holds the lock, where the
  lock file keeps what it says.

## Implementation notes

The host may change at any time: each question to it leads to another state of the host. An action
of the supervisor is recorded with its outcome. The script runs under `set -e`, so a function that
returns a status other than zero ends it, unless its status is tested. Files are written without
failures.
-/

namespace KeelTrader.Core.Deploy

open Handshake

/-! ## The host -/

/-- What the script asks of the host, whose states are `σ`. -/
structure Outside (σ : Type) where
  /-- `lock_holder_pid`, empty when there is no holder. -/
  holderPid : σ → Option ℕ × σ
  /-- `command -v systemctl` succeeds. -/
  hasSystemctl : Bool
  /-- `systemctl show -p MainPID --value`. -/
  mainPid : String → σ → Option ℕ × σ
  /-- `systemctl stop`, and whether it succeeds. -/
  stop : String → σ → Bool × σ
  /-- `systemctl restart`, and whether it succeeds. -/
  restart : String → σ → Bool × σ
  /-- `date`. -/
  date : σ → String × σ
  /-- `sleep 1`. -/
  sleep : σ → σ

/-- The host before and after a question of the script. -/
inductive Outside.Asked {σ : Type} (world : Outside σ) : σ → σ → Prop
  | holderPid (o : σ) : world.Asked o (world.holderPid o).2
  | mainPid (unit : String) (o : σ) : world.Asked o (world.mainPid unit o).2
  | stop (unit : String) (o : σ) : world.Asked o (world.stop unit o).2
  | restart (unit : String) (o : σ) : world.Asked o (world.restart unit o).2
  | date (o : σ) : world.Asked o (world.date o).2
  | sleep (o : σ) : world.Asked o (world.sleep o)

/-- The host before and after some questions. -/
def Outside.Later {σ : Type} (world : Outside σ) : σ → σ → Prop :=
  Relation.ReflTransGen world.Asked

/-- An action of the supervisor, and whether it succeeded. -/
inductive Action
  | stop (unit : String) (ok : Bool)
  | restart (unit : String) (ok : Bool)
  deriving DecidableEq, Repr

/-- A line of the history file. -/
structure HistoryLine where
  date : String
  verb : String
  unit : String
  account : String
  holderPid : Option ℕ
  result : String
  operator : String
  deriving DecidableEq, Repr

/-- The host, what the supervisor was told to do, and the history file. -/
structure Deployment (σ : Type) where
  outside : σ
  actions : List Action
  history : List HistoryLine

/-- The environment of a run of the script, and its registry `LIVE_WRITER_UNITS`. -/
structure Env where
  registry : List String
  allowLive : Option String
  alpPaper : Option String
  gateCleared : Option String
  paperClean : Option String
  lockSharedOk : Option String
  account : Option String
  user : Option String
  deriving DecidableEq, Repr

/-- `${value:-default}`. -/
def orDefault (value : Option String) (default : String) : String :=
  if value.getD "" = "" then default else value.getD ""

/-! ## The script -/

/-- The mode of a run, and the unit that its arguments name. -/
structure Parsed where
  live : Bool
  unit : String
  deriving DecidableEq, Repr

/-- The loop over the arguments: the mode and the unit, or the exit status of `usage` or `die`. -/
def parseArgs : Parsed → List String → Except ℕ Parsed
  | p, [] => .ok p
  | p, arg :: args =>
    if arg = "-h" ∨ arg = "--help" then .error 0
    else if arg = "--dry-run" then parseArgs { p with live := false } args
    else if arg = "--live" then parseArgs { p with live := true } args
    else if "--".toList.isPrefixOf arg.toList then .error 1
    else parseArgs { p with unit := arg } args

/-- The unit of a run: the one that is named, or the first one that is registered. -/
def Env.target (env : Env) (p : Parsed) : String :=
  if p.unit = "" then env.registry.head?.getD "<none-registered>" else p.unit

/-- `is_registered_unit`. -/
def isRegisteredUnit (env : Env) (unit : String) : Bool :=
  -- an empty registry is read as one empty name
  (if env.registry = [] then [""] else env.registry).any (· = unit)

/-- `enforce_checklist` succeeds. -/
def enforceChecklist (env : Env) (unit : String) : Bool :=
  isRegisteredUnit env unit && orDefault env.allowLive "" = "1" &&
    orDefault env.alpPaper "" = "0" && orDefault env.gateCleared "" = "1" &&
    orDefault env.paperClean "" = "1" && orDefault env.lockSharedOk "" = "1"

section Script

variable {σ : Type} (world : Outside σ) (env : Env)

/-- A question to the host. -/
def ask {α : Type} (question : σ → α × σ) : Raising ℕ (Deployment σ) α := fun s =>
  .ok (question s.outside).1 { s with outside := (question s.outside).2 }

/-- An action of the supervisor. -/
def command (action : Bool → Action) (question : σ → Bool × σ) : Raising ℕ (Deployment σ) Bool :=
  do
    let ok ← ask question
    modify fun s => { s with actions := s.actions ++ [action ok] }
    pure ok

/-- `verify_lock_handshake`: the supervisor is asked when there is a holder and a `systemctl`. -/
def verify (unit : String) : Raising ℕ (Deployment σ) Bool := do
  let holder ← ask world.holderPid
  let sup ← if holder.isSome && world.hasSystemctl then ask (world.mainPid unit) else pure none
  pure ((verifyLockHandshake holder world.hasSystemctl sup).status = 0)

/-- `append_history`. -/
def appendHistory (verb unit result : String) : Raising ℕ (Deployment σ) Unit := do
  let date ← ask world.date
  let holder ← ask world.holderPid
  modify fun s => { s with history := s.history ++
    [⟨date, verb, unit, orDefault env.account "alpaca_live_writer", holder, result,
      orDefault env.user "unknown"⟩] }

/-- `stop_other_units` over the units that are left: whether there was one to stop, which is its
status: its last command succeeds only when there was none. -/
def stopOtherUnits (keep : String) : Bool → List String → Raising ℕ (Deployment σ) Bool
  | did, [] => pure did
  | did, u :: rest =>
    if u = "" ∨ u = keep then stopOtherUnits keep did rest
    else do
      let ok ← command (.stop u) (world.stop u)
      if ok then stopOtherUnits keep true rest else throw 1

/-- The loop that waits for the handshake. -/
def awaitHandshake (unit : String) : ℕ → Raising ℕ (Deployment σ) Unit
  | 0 => pure ()
  | n + 1 => do
    if ← verify world unit then pure ()
    else
      ask fun o => ((), world.sleep o)
      awaitHandshake unit n

/-- The dry run. -/
def dryRun (unit : String) : Raising ℕ (Deployment σ) ℕ := do
  if ← verify world unit then
    appendHistory world env "dry-run" unit "handshake-ok"
    pure 0
  else
    appendHistory world env "dry-run" unit "handshake-incomplete"
    pure 0

/-- The live path, once the gates are passed. -/
def cutover (unit : String) : Raising ℕ (Deployment σ) ℕ := do
  if ← stopOtherUnits world unit false env.registry then throw 1
  unless ← command (.restart unit) (world.restart unit) do throw 1
  awaitHandshake world unit 5
  if ← verify world unit then
    appendHistory world env "live" unit "cutover-ok"
    pure 0
  else
    appendHistory world env "live" unit "cutover-FAILED"
    throw 1

/-- `deploy_live_trader.sh`: its exit status. -/
def deploy (args : List String) : Raising ℕ (Deployment σ) ℕ := do
  let p ← Raising.ofExcept (parseArgs ⟨false, ""⟩ args)
  let unit := env.target p
  if !p.live then dryRun world env unit
  else if env.registry = [] then
    appendHistory world env "live" unit "refused-empty-registry"
    throw 1
  else if !enforceChecklist env unit then
    appendHistory world env "live" unit "refused-checklist"
    throw 1
  else cutover world env unit

/-- A run of the script from a state: its exit status and the state it leaves. -/
def run (args : List String) (s : Deployment σ) : ℕ × Deployment σ :=
  match deploy world env args s with
  | .ok status s' => (status, s')
  | .error status s' => (status, s')

end Script

/-- Runs of the script that follow each other, each with its environment and arguments. -/
def operate {σ : Type} (world : Outside σ) :
    List (Env × List String) → Deployment σ → Deployment σ
  | [], s => s
  | (env, args) :: runs, s => operate world runs (run world env args s).2

/-! ## How a run ends -/

/-- The registered units that a cutover to `keep` stops. -/
def Env.others (env : Env) (keep : String) : List String :=
  env.registry.filter fun u => u ≠ "" ∧ u ≠ keep

/-- The run is a cutover to `unit` whose gates are passed. -/
structure Authorised (env : Env) (args : List String) (unit : String) : Prop where
  live : ∃ p, parseArgs ⟨false, ""⟩ args = .ok p ∧ p.live = true ∧ env.target p = unit
  registered : unit ∈ env.registry
  allowLive : env.allowLive = some "1"
  alpPaper : env.alpPaper = some "0"
  gateCleared : env.gateCleared = some "1"
  paperClean : env.paperClean = some "1"
  lockSharedOk : env.lockSharedOk = some "1"

/-- What a line of the history says. -/
structure HistoryLine.Says (line : HistoryLine) (env : Env) (verb unit result : String) :
    Prop where
  verb : line.verb = verb
  unit : line.unit = unit
  result : line.result = result
  account : line.account = orDefault env.account "alpaca_live_writer"
  operator : line.operator = orDefault env.user "unknown"

/-- From the state `o` of the host the lock file names a PID, and then the supervisor shows the same
PID for the unit. -/
def Verified {σ : Type} (world : Outside σ) (unit : String) (o : σ) : Prop :=
  ∃ pid, pid ≠ 0 ∧ (world.holderPid o).1 = some pid ∧
    (world.mainPid unit (world.holderPid o).2).1 = some pid

/-- Between two states of the host the unit was restarted, and then the handshake verified. -/
def Restarted {σ : Type} (world : Outside σ) (unit : String) (o o' : σ) : Prop :=
  ∃ o₁ o₂, world.Later o o₁ ∧ (world.restart unit o₁).1 = true ∧
    world.Later (world.restart unit o₁).2 o₂ ∧ Verified world unit o₂ ∧
    world.Later (world.mainPid unit (world.holderPid o₂).2).2 o'

/-- How a run of the script ends, between two states of the host: its exit status, what the
supervisor was told to do, and what was added to the history. -/
inductive Ends {σ : Type} (world : Outside σ) (env : Env) (args : List String) (o o' : σ) :
    ℕ → List Action → List HistoryLine → Prop
  /-- `usage`, or an unknown flag. -/
  | arguments {status : ℕ} (h : parseArgs ⟨false, ""⟩ args = .error status) :
      Ends world env args o o' status [] []
  | dryRun {p : Parsed} {line : HistoryLine} {result : String}
      (h : parseArgs ⟨false, ""⟩ args = .ok p) (hmode : p.live = false)
      (hline : line.Says env "dry-run" (env.target p) result)
      (hresult : result = "handshake-ok" ∨ result = "handshake-incomplete") :
      Ends world env args o o' 0 [] [line]
  | refused {p : Parsed} {line : HistoryLine} {result : String}
      (h : parseArgs ⟨false, ""⟩ args = .ok p) (hmode : p.live = true)
      (hgate : ¬Authorised env args (env.target p))
      (hline : line.Says env "live" (env.target p) result)
      (hresult : result = "refused-empty-registry" ∨ result = "refused-checklist") :
      Ends world env args o o' 1 [] [line]
  /-- One of the other units could not be stopped. -/
  | stopFailed {unit u : String} {stopped rest : List String} (h : Authorised env args unit)
      (hothers : env.others unit = stopped ++ u :: rest) :
      Ends world env args o o' 1 (stopped.map (.stop · true) ++ [.stop u false]) []
  /-- The others were stopped, and the status of the function that did it ends the script. -/
  | othersStopped {unit : String} (h : Authorised env args unit) (hothers : env.others unit ≠ []) :
      Ends world env args o o' 1 ((env.others unit).map (.stop · true)) []
  | restartFailed {unit : String} (h : Authorised env args unit) (hothers : env.others unit = []) :
      Ends world env args o o' 1 [.restart unit false] []
  | cutoverFailed {unit : String} {line : HistoryLine} (h : Authorised env args unit)
      (hothers : env.others unit = []) (hline : line.Says env "live" unit "cutover-FAILED") :
      Ends world env args o o' 1 [.restart unit true] [line]
  | cutoverOk {unit : String} {line : HistoryLine} (h : Authorised env args unit)
      (hothers : env.others unit = []) (hrestarted : Restarted world unit o o')
      (hline : line.Says env "live" unit "cutover-ok") :
      Ends world env args o o' 0 [.restart unit true] [line]

/-- An action that a run of the script may take. -/
def Action.Permitted (env : Env) (args : List String) : Action → Prop
  | .stop u _ => ∃ unit, Authorised env args unit ∧ u ∈ env.others unit
  | .restart unit _ => Authorised env args unit ∧ env.others unit = []

/-- The unit of a restart that succeeded. -/
def Action.restartedUnit : Action → Option String
  | .restart unit true => some unit
  | _ => none

/-- The unit of a line that reports how a cutover ended. -/
def HistoryLine.cutoverUnit (line : HistoryLine) : Option String :=
  if line.result = "cutover-ok" ∨ line.result = "cutover-FAILED" then some line.unit else none

/-- What was done between two states. -/
structure Did {σ : Type} (world : Outside σ) (s s' : Deployment σ) (actions : List Action)
    (lines : List HistoryLine) : Prop where
  later : world.Later s.outside s'.outside
  actions : s'.actions = s.actions ++ actions
  history : s'.history = s.history ++ lines

section Runs

variable {σ : Type} {world : Outside σ} {env : Env} {args : List String} {unit : String}
  {s s' s'' : Deployment σ}

lemma Did.refl : Did world s s [] [] :=
  ⟨Relation.ReflTransGen.refl, (List.append_nil _).symm, (List.append_nil _).symm⟩

lemma Did.trans {acts acts' : List Action} {lines lines' : List HistoryLine}
    (h : Did world s s' acts lines) (h' : Did world s' s'' acts' lines') :
    Did world s s'' (acts ++ acts') (lines ++ lines') :=
  ⟨h.later.trans h'.later, by rw [h'.actions, h.actions, List.append_assoc],
    by rw [h'.history, h.history, List.append_assoc]⟩

/-- The gates are passed when the unit is registered and the checklist is complete. -/
lemma authorised_iff {p : Parsed} (h : parseArgs ⟨false, ""⟩ args = .ok p)
    (hlive : p.live = true) : Authorised env args (env.target p) ↔
      env.registry ≠ [] ∧ enforceChecklist env (env.target p) = true := by
  have hset : ∀ (value : Option String) (wanted : String), wanted ≠ "" →
      (orDefault value "" = wanted ↔ value = some wanted) := by
    intro value wanted hne
    cases value with
    | none => simp [orDefault, hne.symm]
    | some v =>
      by_cases hv : v = ""
      · simp [orDefault, hv]
      · simp [orDefault, hv]
  have h0 : ∀ value, orDefault value "" = "0" ↔ value = some "0" :=
    fun value => hset value "0" (by decide)
  have h1 : ∀ value, orDefault value "" = "1" ↔ value = some "1" :=
    fun value => hset value "1" (by decide)
  simp only [enforceChecklist, Bool.and_eq_true, decide_eq_true_eq, h0, h1, isRegisteredUnit,
    List.any_eq_true]
  constructor
  · rintro ⟨-, hreg, ha, hp, hg, hc, hl⟩
    have hne := List.ne_nil_of_mem hreg
    rw [if_neg hne]
    exact ⟨hne, ⟨⟨⟨⟨⟨⟨_, hreg, rfl⟩, ha⟩, hp⟩, hg⟩, hc⟩, hl⟩⟩
  · rintro ⟨hne, ⟨⟨⟨⟨⟨u, hu, heq⟩, ha⟩, hp⟩, hg⟩, hc⟩, hl⟩
    rw [if_neg hne] at hu
    rw [heq] at hu
    exact ⟨⟨p, h, hlive, rfl⟩, hu, ha, hp, hg, hc, hl⟩

/-! ## The functions of the script -/

/-- A question to the host does nothing else. -/
lemma ask_run {α : Type} {question : σ → α × σ} (hasked : ∀ o, world.Asked o (question o).2)
    (s : Deployment σ) :
    ∃ s', ask question s = .ok (question s.outside).1 s' ∧ Did world s s' [] [] ∧
      s'.outside = (question s.outside).2 :=
  ⟨_, rfl, ⟨.single (hasked _), (List.append_nil _).symm, (List.append_nil _).symm⟩, rfl⟩

/-- An action is recorded with its outcome. -/
lemma command_run (action : Bool → Action) {question : σ → Bool × σ}
    (hasked : ∀ o, world.Asked o (question o).2) (s : Deployment σ) :
    ∃ s', command action question s = .ok (question s.outside).1 s' ∧
      Did world s s' [action (question s.outside).1] [] ∧ s'.outside = (question s.outside).2 :=
  ⟨_, rfl, ⟨.single (hasked _), rfl, (List.append_nil _).symm⟩, rfl⟩

/-- The handshake does nothing, and succeeds only where it is verified. -/
lemma verify_run (world : Outside σ) (unit : String) (s : Deployment σ) :
    ∃ ok s', verify world unit s = .ok ok s' ∧ Did world s s' [] [] ∧
      (ok = true → Verified world unit s.outside ∧
        s'.outside = (world.mainPid unit (world.holderPid s.outside).2).2) := by
  obtain ⟨s₁, hask, hdid, hout⟩ := ask_run (.holderPid : ∀ o, world.Asked o _) s
  cases hholder : (world.holderPid s.outside).1 with
  | none =>
    rw [hholder] at hask
    exact ⟨_, s₁, by rw [verify, Raising.bind_of_eq_ok hask]; rfl, hdid, by
      simp [verifyLockHandshake, Verdict.status]⟩
  | some pid =>
    rw [hholder] at hask
    cases hsystemctl : world.hasSystemctl with
    | false =>
      refine ⟨false, s₁, ?_, hdid, by simp⟩
      rw [verify, Raising.bind_of_eq_ok hask, hsystemctl]
      rfl
    | true =>
      obtain ⟨s₂, hask', hdid', hout'⟩ := ask_run (.mainPid unit : ∀ o, world.Asked o _) s₁
      rw [hout] at hask' hout'
      refine ⟨decide ((verifyLockHandshake (some pid) true
        (world.mainPid unit (world.holderPid s.outside).2).1).status = 0), s₂, ?_,
        hdid.trans hdid', fun hok => ⟨?_, hout'⟩⟩
      · rw [verify, Raising.bind_of_eq_ok hask, hsystemctl]
        show (ask (world.mainPid unit) >>= fun sup => pure _ : Raising ℕ (Deployment σ) Bool) s₁ = _
        rw [Raising.bind_of_eq_ok hask']
        rfl
      · have hstatus := of_decide_eq_true hok
        cases hsup : (world.mainPid unit (world.holderPid s.outside).2).1 with
        | none =>
          rw [hsup] at hstatus
          simp [verifyLockHandshake, Verdict.status] at hstatus
        | some sup =>
          rw [hsup] at hstatus
          have hpos : sup ≠ 0 := by
            rintro rfl
            simp [verifyLockHandshake, Verdict.status] at hstatus
          obtain ⟨heq, -⟩ := (verifyLockHandshake_status hpos).mp hstatus
          exact ⟨sup, hpos, hholder.trans heq, hsup⟩

/-- A line is added to the history. -/
lemma appendHistory_run (world : Outside σ) (env : Env) (verb unit result : String)
    (s : Deployment σ) :
    ∃ line s', appendHistory world env verb unit result s = .ok () s' ∧
      Did world s s' [] [line] ∧ line.Says env verb unit result :=
  ⟨_, _, rfl, ⟨.tail (.single (.date _)) (.holderPid _), (List.append_nil _).symm, rfl⟩,
    ⟨rfl, rfl, rfl, rfl, rfl⟩⟩

/-- The other units are stopped in their order, until one cannot be. -/
lemma stopOtherUnits_run (world : Outside σ) (keep : String) (units : List String) (did : Bool)
    (s : Deployment σ) :
    (∃ s', stopOtherUnits world keep did units s =
        .ok (did || !(units.filter fun u => u ≠ "" ∧ u ≠ keep).isEmpty) s' ∧
      Did world s s' ((units.filter fun u => u ≠ "" ∧ u ≠ keep).map (.stop · true)) []) ∨
    (∃ stopped u rest s', stopOtherUnits world keep did units s = .error 1 s' ∧
      (units.filter fun u => u ≠ "" ∧ u ≠ keep) = stopped ++ u :: rest ∧
      Did world s s' (stopped.map (.stop · true) ++ [.stop u false]) []) := by
  induction units generalizing did s with
  | nil => exact Or.inl ⟨s, by simp [stopOtherUnits], Did.refl⟩
  | cons u units ih =>
    by_cases hskip : u = "" ∨ u = keep
    · have hfilter : ((u :: units).filter fun u => u ≠ "" ∧ u ≠ keep) =
          units.filter fun u => u ≠ "" ∧ u ≠ keep := by
        refine List.filter_cons_of_neg ?_
        rcases hskip with h | h <;> simp [h]
      rw [hfilter, stopOtherUnits, if_pos hskip]
      exact ih did s
    · have hfilter : ((u :: units).filter fun u => u ≠ "" ∧ u ≠ keep) =
          u :: units.filter fun u => u ≠ "" ∧ u ≠ keep :=
        List.filter_cons_of_pos (by simpa [not_or] using hskip)
      obtain ⟨s₁, hstop, hdid, -⟩ := command_run (.stop u) (.stop u : ∀ o, world.Asked o _) s
      rw [hfilter, stopOtherUnits, if_neg hskip, Raising.bind_of_eq_ok hstop]
      cases hok : (world.stop u s.outside).1 with
      | false =>
        rw [hok] at hdid
        exact Or.inr ⟨[], u, _, s₁, rfl, rfl, hdid⟩
      | true =>
        rw [hok] at hdid
        rcases ih true s₁ with ⟨s', hrest, hdid'⟩ | ⟨stopped, u', rest, s', hrest, hsplit, hdid'⟩
        · refine Or.inl ⟨s', ?_, hdid.trans hdid'⟩
          simpa using hrest
        · exact Or.inr ⟨u :: stopped, u', rest, s', hrest, by rw [hsplit, List.cons_append],
            hdid.trans hdid'⟩

/-- Waiting for the handshake does nothing. -/
lemma awaitHandshake_run (world : Outside σ) (unit : String) (n : ℕ) (s : Deployment σ) :
    ∃ s', awaitHandshake world unit n s = .ok () s' ∧ Did world s s' [] [] := by
  induction n generalizing s with
  | zero => exact ⟨s, rfl, Did.refl⟩
  | succ n ih =>
    obtain ⟨ok, s₁, hverify, hdid, -⟩ := verify_run world unit s
    rw [awaitHandshake, Raising.bind_of_eq_ok hverify]
    cases ok with
    | true => exact ⟨s₁, rfl, hdid⟩
    | false =>
      obtain ⟨s₂, hsleep, hdid', -⟩ :=
        @ask_run σ world Unit (fun o => ((), world.sleep o)) .sleep s₁
      obtain ⟨s', hrest, hdid''⟩ := ih s₂
      refine ⟨s', ?_, hdid.trans (hdid'.trans hdid'')⟩
      show (ask _ >>= fun _ => awaitHandshake world unit n) s₁ = _
      rw [Raising.bind_of_eq_ok hsleep]
      exact hrest

/-! ## The script as a whole -/

/-- The script ends from `s`, whether it runs to its end or is ended. -/
def EndsFrom (world : Outside σ) (env : Env) (args : List String) (s : Deployment σ)
    (x : Raising ℕ (Deployment σ) ℕ) : Prop :=
  ∃ status s' acts lines, (x s = .ok status s' ∨ x s = .error status s') ∧
    Did world s s' acts lines ∧ Ends world env args s.outside s'.outside status acts lines

/-- The dry run. -/
lemma dryRun_ends {p : Parsed} (hargs : parseArgs ⟨false, ""⟩ args = .ok p)
    (hmode : p.live = false) (s : Deployment σ) :
    EndsFrom world env args s (dryRun world env (env.target p)) := by
  obtain ⟨ok, s₁, hverify, hdid₁, -⟩ := verify_run world (env.target p) s
  cases ok with
  | true =>
    obtain ⟨line, s', happend, hdid₂, hsaid⟩ :=
      appendHistory_run world env "dry-run" (env.target p) "handshake-ok" s₁
    refine ⟨0, s', _, _, Or.inl ?_, hdid₁.trans hdid₂, .dryRun hargs hmode hsaid (Or.inl rfl)⟩
    rw [dryRun, Raising.bind_of_eq_ok hverify, if_pos rfl, Raising.bind_of_eq_ok happend]
    rfl
  | false =>
    obtain ⟨line, s', happend, hdid₂, hsaid⟩ :=
      appendHistory_run world env "dry-run" (env.target p) "handshake-incomplete" s₁
    refine ⟨0, s', _, _, Or.inl ?_, hdid₁.trans hdid₂, .dryRun hargs hmode hsaid (Or.inr rfl)⟩
    rw [dryRun, Raising.bind_of_eq_ok hverify, if_neg Bool.false_ne_true,
      Raising.bind_of_eq_ok happend]
    rfl

/-- **The live path**, once the gates are passed. -/
lemma cutover_ends (hauth : Authorised env args unit) (s : Deployment σ) :
    EndsFrom world env args s (cutover world env unit) := by
  rcases stopOtherUnits_run world unit env.registry false s with
    ⟨s₁, hstop, hdid⟩ | ⟨stopped, u, rest, s₁, hstop, hsplit, hdid⟩
  · by_cases hothers : env.others unit = []
    · -- there was no other unit, and the script goes on
      have hstop' : stopOtherUnits world unit false env.registry s = .ok false s₁ := by
        rw [hstop]
        simp only [Bool.false_or]
        rw [show (env.registry.filter fun u => u ≠ "" ∧ u ≠ unit) = [] from hothers]
        rfl
      have hdid₁ : Did world s s₁ [] [] := by
        rw [show (env.registry.filter fun u => u ≠ "" ∧ u ≠ unit) = [] from hothers] at hdid
        exact hdid
      obtain ⟨s₂, hrestart, hdid₂, hout₂⟩ :=
        command_run (.restart unit) (.restart unit : ∀ o, world.Asked o _) s₁
      cases hok : (world.restart unit s₁.outside).1 with
      | false =>
        rw [hok] at hrestart hdid₂
        refine ⟨1, s₂, _, _, Or.inr ?_, hdid₁.trans hdid₂, .restartFailed hauth hothers⟩
        rw [cutover, Raising.bind_of_eq_ok hstop']
        show (command (.restart unit) (world.restart unit) >>= _) s₁ = _
        rw [Raising.bind_of_eq_ok hrestart]
        rfl
      | true =>
        rw [hok] at hrestart hdid₂
        obtain ⟨s₃, hawait, hdid₃⟩ := awaitHandshake_run world unit 5 s₂
        obtain ⟨ok, s₄, hverify, hdid₄, hverified⟩ := verify_run world unit s₃
        have hrun : cutover world env unit s =
            (if ok then do
              appendHistory world env "live" unit "cutover-ok"
              pure 0
            else do
              appendHistory world env "live" unit "cutover-FAILED"
              throw 1 : Raising ℕ (Deployment σ) ℕ) s₄ := by
          rw [cutover, Raising.bind_of_eq_ok hstop']
          show (command (.restart unit) (world.restart unit) >>= _) s₁ = _
          rw [Raising.bind_of_eq_ok hrestart]
          show (awaitHandshake world unit 5 >>= _) s₂ = _
          rw [Raising.bind_of_eq_ok hawait, Raising.bind_of_eq_ok hverify]
        have hdid' := hdid₁.trans (hdid₂.trans (hdid₃.trans hdid₄))
        cases ok with
        | true =>
          obtain ⟨line, s', happend, hdid₅, hsaid⟩ :=
            appendHistory_run world env "live" unit "cutover-ok" s₄
          obtain ⟨hv, hout₄⟩ := hverified rfl
          refine ⟨0, s', _, _, Or.inl ?_, hdid'.trans hdid₅, .cutoverOk hauth hothers
            ⟨s₁.outside, s₃.outside, hdid₁.later, hok, ?_, hv, ?_⟩ hsaid⟩
          · rw [hrun, if_pos rfl, Raising.bind_of_eq_ok happend]
            rfl
          · rw [← hout₂]
            exact hdid₃.later
          · rw [← hout₄]
            exact hdid₅.later
        | false =>
          obtain ⟨line, s', happend, hdid₅, hsaid⟩ :=
            appendHistory_run world env "live" unit "cutover-FAILED" s₄
          refine ⟨1, s', _, _, Or.inr ?_, hdid'.trans hdid₅, .cutoverFailed hauth hothers hsaid⟩
          rw [hrun, if_neg Bool.false_ne_true, Raising.bind_of_eq_ok happend]
          rfl
    · refine ⟨1, s₁, _, _, Or.inr ?_, hdid, .othersStopped hauth hothers⟩
      have hne : (env.registry.filter fun u => u ≠ "" ∧ u ≠ unit).isEmpty = false :=
        List.isEmpty_eq_false_iff.mpr hothers
      rw [hne] at hstop
      rw [cutover, Raising.bind_of_eq_ok hstop]
      rfl
  · refine ⟨1, s₁, _, _, Or.inr ?_, hdid, .stopFailed hauth hsplit⟩
    rw [cutover, Raising.bind_of_eq_error hstop]

/-- **How a run ends.** -/
theorem deploy_ends (world : Outside σ) (env : Env) (args : List String) (s : Deployment σ) :
    ∃ acts lines, Did world s (run world env args s).2 acts lines ∧
      Ends world env args s.outside (run world env args s).2.outside (run world env args s).1 acts
        lines := by
  suffices h : EndsFrom world env args s (deploy world env args) by
    obtain ⟨status, s', acts, lines, hrun, hdid, hends⟩ := h
    have heq : run world env args s = (status, s') := by
      rcases hrun with hrun | hrun <;> rw [run, hrun]
    rw [heq]
    exact ⟨acts, lines, hdid, hends⟩
  cases hargs : parseArgs ⟨false, ""⟩ args with
  | error status =>
    refine ⟨status, s, [], [], Or.inr ?_, Did.refl, .arguments hargs⟩
    rw [deploy, hargs, Raising.bind_of_eq_error (Raising.ofExcept_error _ s)]
  | ok p =>
    have hstart : deploy world env args s = (if !p.live then dryRun world env (env.target p)
        else if env.registry = [] then do
          appendHistory world env "live" (env.target p) "refused-empty-registry"
          throw 1
        else if !enforceChecklist env (env.target p) then do
          appendHistory world env "live" (env.target p) "refused-checklist"
          throw 1
        else cutover world env (env.target p) : Raising ℕ (Deployment σ) ℕ) s := by
      rw [deploy, hargs, Raising.bind_of_eq_ok (Raising.ofExcept_ok p s)]
    cases hmode : p.live with
    | false =>
      rw [hmode, Bool.not_false, if_pos rfl] at hstart
      obtain ⟨status, s', acts, lines, hrun, hrest⟩ := dryRun_ends hargs hmode s
      exact ⟨status, s', acts, lines, by rwa [hstart], hrest⟩
    | true =>
      have hauth := @authorised_iff env args p hargs hmode
      rw [hmode, Bool.not_true, if_neg Bool.false_ne_true] at hstart
      by_cases hreg : env.registry = []
      · obtain ⟨line, s', happend, hdid, hsaid⟩ :=
          appendHistory_run world env "live" (env.target p) "refused-empty-registry" s
        refine ⟨1, s', _, _, Or.inr ?_, hdid,
          .refused hargs hmode (fun h => (hauth.mp h).1 hreg) hsaid (Or.inl rfl)⟩
        rw [hstart, if_pos hreg, Raising.bind_of_eq_ok happend]
        rfl
      · rw [if_neg hreg] at hstart
        cases hcheck : enforceChecklist env (env.target p) with
        | false =>
          obtain ⟨line, s', happend, hdid, hsaid⟩ :=
            appendHistory_run world env "live" (env.target p) "refused-checklist" s
          refine ⟨1, s', _, _, Or.inr ?_, hdid, .refused hargs hmode (fun h => ?_) hsaid
            (Or.inr rfl)⟩
          · rw [hstart, hcheck, Bool.not_false, if_pos rfl, Raising.bind_of_eq_ok happend]
            rfl
          · rw [hcheck] at hauth
            exact Bool.false_ne_true (hauth.mp h).2
        | true =>
          rw [hcheck, Bool.not_true, if_neg Bool.false_ne_true] at hstart
          obtain ⟨status, s', acts, lines, hrun, hrest⟩ :=
            cutover_ends (hauth.mpr ⟨hreg, hcheck⟩) s
          exact ⟨status, s', acts, lines, by rwa [hstart], hrest⟩

/-! ## Runs that follow each other -/

/-- What the actions and the lines of some runs say about them. -/
structure Accounted {σ : Type} (world : Outside σ) (runs : List (Env × List String)) (o o' : σ)
    (acts : List Action) (lines : List HistoryLine) : Prop where
  permitted : ∀ a ∈ acts, ∃ r ∈ runs, a.Permitted r.1 r.2
  cutovers : lines.filterMap HistoryLine.cutoverUnit = acts.filterMap Action.restartedUnit
  verified : ∀ line ∈ lines, line.result = "cutover-ok" → Restarted world line.unit o o'

lemma Restarted.widen {o o₁ o₂ o' : σ} (h : Restarted world unit o₁ o₂) (h₁ : world.Later o o₁)
    (h₂ : world.Later o₂ o') : Restarted world unit o o' := by
  obtain ⟨a, b, ha, hok, hb, hv, hlast⟩ := h
  exact ⟨a, b, h₁.trans ha, hok, hb, hv, hlast.trans h₂⟩

lemma HistoryLine.Says.cutoverUnit {line : HistoryLine} {verb result : String}
    (h : line.Says env verb unit result) : line.cutoverUnit =
      if result = "cutover-ok" ∨ result = "cutover-FAILED" then some unit else none := by
  rw [HistoryLine.cutoverUnit, h.result, h.unit]

/-- The stops restart nothing. -/
lemma restartedUnit_stops (units : List String) (ok : Bool) :
    (units.map (Action.stop · ok)).filterMap Action.restartedUnit = [] := by
  induction units with
  | nil => rfl
  | cons u units ih => exact ih

/-- One run. -/
lemma Ends.accounted {o o' : σ} {status : ℕ} {acts : List Action} {lines : List HistoryLine}
    (h : Ends world env args o o' status acts lines) :
    Accounted world [(env, args)] o o' acts lines := by
  have hmem : (env, args) ∈ [(env, args)] := List.mem_singleton_self _
  have hstop : ∀ {unit u : String} (ok : Bool), Authorised env args unit → u ∈ env.others unit →
      ∃ r ∈ [(env, args)], (Action.stop u ok).Permitted r.1 r.2 :=
    fun ok hauth hu => ⟨_, hmem, _, hauth, hu⟩
  cases h with
  | arguments => exact ⟨by simp, rfl, by simp⟩
  | dryRun hargs hmode hsaid hresult =>
    refine ⟨by simp, ?_, ?_⟩
    · rcases hresult with rfl | rfl <;> simp [hsaid.cutoverUnit]
    · simp only [List.mem_singleton, forall_eq, hsaid.result]
      rcases hresult with rfl | rfl <;> simp
  | refused hargs hmode hgate hsaid hresult =>
    refine ⟨by simp, ?_, ?_⟩
    · rcases hresult with rfl | rfl <;> simp [hsaid.cutoverUnit]
    · simp only [List.mem_singleton, forall_eq, hsaid.result]
      rcases hresult with rfl | rfl <;> simp
  | @stopFailed unit u stopped rest hauth hothers =>
    refine ⟨fun a ha => ?_, ?_, by simp⟩
    · rcases List.mem_append.mp ha with ha | ha
      · obtain ⟨v, hv, rfl⟩ := List.mem_map.mp ha
        exact hstop true hauth (by rw [hothers]; exact List.mem_append_left _ hv)
      · rw [List.mem_singleton.mp ha]
        exact hstop false hauth (by rw [hothers]; simp)
    · rw [List.filterMap_append, restartedUnit_stops]
      rfl
  | othersStopped hauth hothers =>
    refine ⟨fun a ha => ?_, (restartedUnit_stops _ _).symm, by simp⟩
    obtain ⟨v, hv, rfl⟩ := List.mem_map.mp ha
    exact hstop true hauth hv
  | restartFailed hauth hothers =>
    exact ⟨by simpa using ⟨hauth, hothers⟩, rfl, by simp⟩
  | cutoverFailed hauth hothers hsaid =>
    refine ⟨by simpa using ⟨hauth, hothers⟩, by simp [hsaid.cutoverUnit, Action.restartedUnit], ?_⟩
    simp [hsaid.result]
  | cutoverOk hauth hothers hrestarted hsaid =>
    refine ⟨by simpa using ⟨hauth, hothers⟩, by simp [hsaid.cutoverUnit, Action.restartedUnit], ?_⟩
    simp only [List.mem_singleton, forall_eq, hsaid.unit]
    exact fun _ => hrestarted

/-- **Runs that follow each other** are accounted for by what they did and wrote. -/
theorem operate_accounted (world : Outside σ) (runs : List (Env × List String))
    (s : Deployment σ) : ∃ acts lines, Did world s (operate world runs s) acts lines ∧
      Accounted world runs s.outside (operate world runs s).outside acts lines := by
  induction runs generalizing s with
  | nil => exact ⟨[], [], Did.refl, by simp, rfl, by simp⟩
  | cons r runs ih =>
    obtain ⟨env, args⟩ := r
    obtain ⟨acts, lines, hdid, hends⟩ := deploy_ends world env args s
    obtain ⟨acts', lines', hdid', hrest⟩ := ih (run world env args s).2
    have hfirst := hends.accounted
    refine ⟨_, _, hdid.trans hdid', fun a ha => ?_, ?_, fun line hline hok => ?_⟩
    · rcases List.mem_append.mp ha with ha | ha
      · obtain ⟨r, hr, hperm⟩ := hfirst.permitted a ha
        rw [List.mem_singleton.mp hr] at hperm
        exact ⟨_, List.mem_cons_self, hperm⟩
      · obtain ⟨r, hr, hperm⟩ := hrest.permitted a ha
        exact ⟨r, List.mem_cons_of_mem _ hr, hperm⟩
    · rw [List.filterMap_append, List.filterMap_append, hfirst.cutovers, hrest.cutovers]
    · rcases List.mem_append.mp hline with hline | hline
      · exact (hfirst.verified line hline hok).widen .refl hdid'.later
      · exact (hrest.verified line hline hok).widen hdid.later .refl

/-- **At most one unit.** Runs of the script with one registry act only when every gate of a cutover
is passed. Whatever the order of the runs, all restarts are of one unit, every registered name is
the name of that unit or empty, and the history names the units that were restarted in their
order. -/
theorem operate_oneUnit {registry : List String} {runs : List (Env × List String)}
    (hreg : ∀ r ∈ runs, r.1.registry = registry) (s : Deployment σ) :
    ∃ acts lines, Did world s (operate world runs s) acts lines ∧
      (∀ a ∈ acts, ∃ r ∈ runs, a.Permitted r.1 r.2) ∧
      (∀ u ok, .restart u ok ∈ acts → u ∈ registry ∧ (∀ v ∈ registry, v = u ∨ v = "") ∧
        ∀ v ok', .restart v ok' ∈ acts → v = u) ∧
      lines.filterMap HistoryLine.cutoverUnit = acts.filterMap Action.restartedUnit := by
  obtain ⟨acts, lines, hdid, haccounted⟩ := operate_accounted world runs s
  have hrestart : ∀ u ok, .restart u ok ∈ acts →
      u ∈ registry ∧ ∀ v ∈ registry, v = u ∨ v = "" := by
    intro u ok hu
    obtain ⟨r, hr, hauth, hothers⟩ := haccounted.permitted _ hu
    rw [← hreg r hr]
    refine ⟨hauth.registered, fun v hv => ?_⟩
    have hnot := List.filter_eq_nil_iff.mp hothers v hv
    by_contra hne
    push Not at hne
    exact hnot (by simpa using hne.symm)
  refine ⟨acts, lines, hdid, haccounted.permitted, fun u ok hu => ?_, haccounted.cutovers⟩
  obtain ⟨hmem, honly⟩ := hrestart u ok hu
  refine ⟨hmem, honly, fun v ok' hv => ?_⟩
  obtain ⟨hmem', honly'⟩ := hrestart v ok' hv
  -- one of the two names might be empty, but then all the registered ones are
  rcases honly v hmem' with h | h
  · exact h
  · rcases honly' u hmem with h' | h'
    · exact h'.symm
    · rw [h, h']

/-! ## The lock -/

/-- The script asks a host that lives through a run: its questions are answered at moments of the
run that follow each other, and a `MainPID` is the PID of a process that is alive. -/
structure Observes {S : PyStr} {account : String} {osPid : LiveWriter.Pid → ℕ+}
    (world : Outside σ) (r : Handshake.Run S account osPid) (moment : σ → ℕ) : Prop where
  within : ∀ o, moment o ≤ r.events.length
  later : ∀ o o', world.Asked o o' → moment o ≤ moment o'
  holderPid : ∀ o, (world.holderPid o).1 = (r.state (moment o)).lockHolderPid osPid
  mainPid : ∀ unit o pid, pid ≠ 0 → (world.mainPid unit o).1 = some pid →
    ∃ p, (r.state (moment o)).Alive p ∧ (osPid p : ℕ) = pid

/-- **A cutover that is reported holds the lock.** The host lives through a run in which the text of
the lock file is kept, and the script runs there any number of times. For every line of the history
that says `cutover-ok` there is a moment, after a restart of its unit, at which the process that the
supervisor shows for the unit holds the lock of the account.

**Proof sketch.** The line was written after a handshake that succeeded. The text named the
`MainPID` then, and whom the text has named, while it is kept, holds the lock. -/
theorem operate_holdsLock {S : PyStr} {account : String} {osPid : LiveWriter.Pid → ℕ+}
    {r : Handshake.Run S account osPid} {moment : σ → ℕ} (hkept : r.Kept)
    (hobserves : Observes world r moment) (runs : List (Env × List String)) (s : Deployment σ) :
    ∃ acts lines, Did world s (operate world runs s) acts lines ∧
      ∀ line ∈ lines, line.result = "cutover-ok" → ∃ o₁ o₂ p,
        moment s.outside ≤ moment o₁ ∧ (world.restart line.unit o₁).1 = true ∧
        moment (world.restart line.unit o₁).2 ≤ moment o₂ ∧
        moment o₂ ≤ moment (operate world runs s).outside ∧
        (world.mainPid line.unit o₂).1 = some (osPid p : ℕ) ∧
        (r.state (moment o₂)).HoldsLock p := by
  have hlater : ∀ {o o'}, world.Later o o' → moment o ≤ moment o' := by
    intro o o' h
    induction h with
    | refl => exact le_rfl
    | tail _ hasked ih => exact ih.trans (hobserves.later _ _ hasked)
  obtain ⟨acts, lines, hdid, haccounted⟩ := operate_accounted world runs s
  refine ⟨acts, lines, hdid, fun line hline hok => ?_⟩
  obtain ⟨o₁, o₂, hbefore, hrestart, hafter, ⟨pid, hpos, hholder, hsup⟩, hlast⟩ :=
    haccounted.verified line hline hok
  obtain ⟨p, halive, rfl⟩ := hobserves.mainPid _ _ _ hpos hsup
  have hread : moment o₂ ≤ moment (world.holderPid o₂).2 := hobserves.later _ _ (.holderPid o₂)
  have hshown := hobserves.later _ _ (.mainPid line.unit (world.holderPid o₂).2)
  refine ⟨o₁, (world.holderPid o₂).2, p, hlater hbefore, hrestart, (hlater hafter).trans hread,
    hshown.trans (hlater hlast), hsup, ?_⟩
  apply holdsLock_of_kept r hkept _ (hobserves.within _) p halive
  exact ⟨moment o₂, hread, (hobserves.holderPid o₂).symm.trans hholder⟩

end Runs

/-! ## A cutover -/

/-- The unit of the tests. -/
def traderUnit : String := "keel-live-trader.service"

/-- An environment that passes the gates. -/
def clearedEnv : Env where
  registry := [traderUnit]
  allowLive := some "1"
  alpPaper := some "0"
  gateCleared := some "1"
  paperClean := some "1"
  lockSharedOk := some "1"
  account := none
  user := some "root"

/-- The unit's process is started, and acquires the lock. -/
def acquiredEvents : List Event :=
  .start 1 :: .ask ⟨1, 0⟩ (.acquire ⟨"keel-live-trader", "alpaca_live_writer", false⟩) ::
    List.replicate 9 (.ask ⟨1, 0⟩ .run)

/-- The run of these events. -/
def acquiredRun : Handshake.Run .ascii "alpaca_live_writer" Nat.succPNat where
  toRecordedRun := .replay (Host.start none) acquiredEvents (by decide +kernel)
  content := none
  start := rfl

/-- The host of this run: two events happen in every second, and the supervisor shows the process of
the unit once it is started. -/
def acquiredWorld : Outside (Fin 12) where
  holderPid o := ((acquiredRun.state o).lockHolderPid Nat.succPNat, o)
  hasSystemctl := true
  mainPid _ o := (if (acquiredRun.state o).Alive 1 then some 2 else some 0, o)
  stop _ o := (true, o)
  restart _ o := (true, o)
  date o := ("2026-01-01T00:00:00Z", o)
  sleep o := ⟨min (o + 3) 11, by omega⟩

/-- The process keeps the lock. -/
lemma kept_acquired : acquiredRun.Kept := by
  refine ⟨fun k hk θ request p he hdrop => ?_, fun k hk p he => ?_⟩
  · have hthread : ∀ e ∈ acquiredEvents, ∀ θ request, e = .ask θ request → θ = ⟨1, 0⟩ := by
      simp [acquiredEvents]
    have hnot : ∀ k < 11, ((acquiredRun.state k).config.localOf ⟨1, 0⟩).dropping = none := by
      decide +kernel
    obtain ⟨d, hdropping, -⟩ := hdrop
    rw [hthread _ (List.getElem_mem hk) θ request he, hnot k hk] at hdropping
    cases hdropping
  · have htail : ∀ e ∈ acquiredEvents.tail, ∀ p, e ≠ .start p := by
      simp [acquiredEvents]
    have hfirst : k = 0 := by
      cases k with
      | zero => rfl
      | succ k =>
        have hlt : k < acquiredEvents.tail.length := Nat.lt_of_succ_lt_succ hk
        exact absurd he (htail _ (List.getElem_mem hlt) p)
    subst hfirst
    rintro ⟨i, hi, htext⟩
    obtain rfl : i = 0 := by omega
    cases htext

/-- The host lives through the run. -/
lemma observes_acquired : Observes acquiredWorld acquiredRun Fin.val := by
  refine ⟨fun o => Nat.le_of_lt_succ o.isLt, fun o o' h => ?_, fun o => rfl,
    fun unit o pid hpos h => ?_⟩
  · cases h with
    | sleep => simp only [acquiredWorld]; omega
    | _ => exact le_rfl
  · by_cases halive : (acquiredRun.state o).Alive 1
    · simp only [acquiredWorld, if_pos halive, Option.some.injEq] at h
      exact ⟨1, halive, h⟩
    · simp only [acquiredWorld, if_neg halive, Option.some.injEq] at h
      exact absurd h.symm hpos

/-- The script reports a cutover, and the process of the unit holds the lock. -/
theorem operate_holdsLock_acquired :
    (operate acquiredWorld [(clearedEnv, ["--live", traderUnit])] ⟨0, [], []⟩).history.map
        (fun line => (line.unit, line.result)) = [(traderUnit, "cutover-ok")] ∧
      ∃ acts lines, Did acquiredWorld ⟨0, [], []⟩
          (operate acquiredWorld [(clearedEnv, ["--live", traderUnit])] ⟨0, [], []⟩) acts lines ∧
        ∀ line ∈ lines, line.result = "cutover-ok" → ∃ o₁ o₂ p,
          (0 : Fin 12).val ≤ o₁.val ∧ (acquiredWorld.restart line.unit o₁).1 = true ∧
          (acquiredWorld.restart line.unit o₁).2.val ≤ o₂.val ∧
          o₂.val ≤ (operate acquiredWorld [(clearedEnv, ["--live", traderUnit])]
            ⟨0, [], []⟩).outside.val ∧
          (acquiredWorld.mainPid line.unit o₂).1 = some (Nat.succPNat p : ℕ) ∧
          (acquiredRun.state o₂).HoldsLock p :=
  ⟨by decide +kernel, operate_holdsLock kept_acquired observes_acquired _ _⟩

/-- One cutover; the unit is restarted once. -/
theorem operate_oneUnit_acquired :
    (operate acquiredWorld [(clearedEnv, ["--live", traderUnit])] ⟨0, [], []⟩).actions =
        [.restart traderUnit true] ∧
      ∃ acts lines, Did acquiredWorld ⟨0, [], []⟩
          (operate acquiredWorld [(clearedEnv, ["--live", traderUnit])] ⟨0, [], []⟩) acts lines ∧
        (∀ a ∈ acts, ∃ r ∈ [(clearedEnv, ["--live", traderUnit])], a.Permitted r.1 r.2) ∧
        (∀ u ok, .restart u ok ∈ acts → u ∈ [traderUnit] ∧ (∀ v ∈ [traderUnit], v = u ∨ v = "") ∧
          ∀ v ok', .restart v ok' ∈ acts → v = u) ∧
        lines.filterMap HistoryLine.cutoverUnit = acts.filterMap Action.restartedUnit :=
  ⟨by decide +kernel, operate_oneUnit (by simp [clearedEnv]) _⟩

end KeelTrader.Core.Deploy
