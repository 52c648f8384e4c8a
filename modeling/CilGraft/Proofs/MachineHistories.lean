/-
Histories of a machine: it is told to set slots, to carry out single instructions and to run blocks and bodies, in any
order. A command that fails is part of the history, with the machine as the failure leaves it.

- `Command.perform`, `after`: what a machine can be told, and a history.
- `step_returned`: no instruction but a return makes a machine have returned or not.
- `Returns`, `Returned`: a run evaluates a return; some command of a history has. `after_returned_iff`: the machine
  has returned if and only if the latter is so, since nothing takes it back.
- `runFrom_eq_stepThrough`, `runFrom_of_returned`: what a run carries out, on a machine that has not returned and on one
  that has.
- `run_after_history`: so what it carries out after a history.
-/
import CilGraft.Proofs.MachineDepth

namespace CilGraft.Machine

variable {env : Surroundings} {i : Instruction} {block : List Instruction} {m : Machine} {plan : Plan} {position : Nat}

/-! ## Commands -/

/-- what a machine can be told to do -/
inductive Command where
  | setLocal (slot : Local) (value : Value)
  | step (position : Nat) (i : Instruction)
  | run (b : Body)
  | runBlock (block : List Instruction)

namespace Command

def perform (env : Surroundings) (m : Machine) : Command → Except (Failure Machine) Machine
  | setLocal slot value => leaving m (m.setLocal slot value)
  | step position i => m.step env position i
  | run b => Machine.run env b.instructions m
  | runBlock block => Machine.run env block m

/-- the instructions that are to be carried out -/
def code : Command → List Instruction
  | setLocal .. => []
  | step _ i => [i]
  | run b => b.instructions
  | runBlock block => block

def isRun : Command → Bool
  | run _ | runBlock _ => true
  | setLocal .. | step .. => false

end Command

/-- the machine as it is left, by a failure too -/
def settle : Except (Failure Machine) Machine → Machine
  | .ok m => m
  | .error f => f.state

/-- a machine after some commands -/
def after (env : Surroundings) (m : Machine) (commands : List Command) : Machine :=
  commands.foldl (fun m command => settle (command.perform env m)) m

/-! ## Steps -/

/-- what a call does with its result is not a return -/
theorem callOutcome_results?_eq_some {op : Opcode} {member : Member} {object : Option Value} {result : Value} :
    ∃ results, (Plan.callOutcome op member object result).results? = some results := by
  unfold Plan.callOutcome
  repeat' split
  all_goals exact ⟨_, rfl⟩

/-- only a return has the outcome of a return -/
theorem plan_results {operands : List Value} {outcome : Outcome} (hret : i.opcode ≠ .ret)
    (hplan : m.plan env i = .ok plan) (hact : plan.act operands = .ok outcome) :
    ∃ results, outcome.results? = some results := by
  cases hfixed : i.opcode.stackEffect? with
  | some fixed =>
    obtain ⟨results, hresults, -⟩ := (plan_fits_fixed hfixed hplan).results operands outcome hact
    exact ⟨results, hresults⟩
  | none =>
    rw [plan_of_no_fixed hfixed hret] at hplan
    obtain ⟨token, member, hook, -, -, -, rfl⟩ := Plan.call_eq_ok.1 hplan
    obtain ⟨result, -, hact⟩ := bind_eq_ok.1 hact
    cases hact
    exact callOutcome_results?_eq_some

/-- a step that fails has at most taken operands -/
theorem step_error_state {f : Failure Machine} (h : m.step env position i = .error f) :
    ∃ operands rest, m.stack = operands ++ rest ∧ f.state = { m with stack := rest } := by
  rcases bind_eq_error.1 h with h | ⟨plan, -, h⟩
  · exact ⟨[], m.stack, rfl, (leaving_eq_error.1 h).2⟩
  · split at h
    · cases h
      exact ⟨[], m.stack, rfl, rfl⟩
    · rename_i operands rest htake
      obtain ⟨top, -, hstack, -⟩ := takeOperands_eq_some.1 htake
      exact ⟨top, rest, hstack, (leaving_eq_error.1 h).2⟩

/-- **Only a return makes a machine have returned**, and nothing takes that back. -/
theorem step_returned (hret : i.opcode ≠ .ret) : (settle (m.step env position i)).returned = m.returned := by
  cases hstep : m.step env position i with
  | ok m' =>
    obtain ⟨plan, operands, stack, outcome, hplan, -, -, hact, hperform⟩ := step_eq_ok.1 hstep
    obtain ⟨results, hresults⟩ := plan_results hret hplan hact
    exact (perform_results hresults hperform).2
  | error f =>
    obtain ⟨operands, rest, -, hstate⟩ := step_error_state hstep
    simp only [settle, hstate]

/-! ## Runs -/

variable {rest : List Instruction}

/-- a run of the block evaluates a return -/
inductive Returns (env : Surroundings) : List Instruction → Machine → Prop where
  | here {i : Instruction} {rest : List Instruction} {m : Machine} (hret : i.opcode = .ret) : Returns env (i :: rest) m
  | later {i : Instruction} {rest : List Instruction} {m m' : Machine} (hi : Steps env i m m') (hr : m'.returned = none)
      (h : Returns env rest m') : Returns env (i :: rest) m

/-- where the first instruction is not a return, it must be carried out before one can be evaluated -/
theorem returns_cons_iff (position : Nat) (hret : i.opcode ≠ .ret) : Returns env (i :: rest) m ↔
    ∃ m₁, m.step env position i = .ok m₁ ∧ m₁.returned = none ∧ Returns env rest m₁ := by
  constructor
  · rintro (hhere | ⟨hi, hr, h⟩)
    · exact absurd hhere hret
    · exact ⟨_, hi position, hr, h⟩
  · rintro ⟨m₁, hi, hr, h⟩
    exact .later (.of_step hi) hr h

/-- **Behind a run the machine has returned** if it had before, or if the run has evaluated a return. -/
theorem runFrom_returned_iff : (settle (runFrom env position block m)).returned ≠ none ↔
    m.returned ≠ none ∨ Returns env block m := by
  induction block generalizing m position with
  | nil =>
    refine (or_iff_left ?_).symm
    rintro ⟨⟩
  | cons i rest ih =>
    by_cases hret : i.opcode = .ret
    · have hrun : (settle (runFrom env position (i :: rest) m)).returned = some m.stack.head? := by
        rw [runFrom_cons (step_ret hret)]
        rfl
      rw [hrun]
      exact iff_of_true (by simp) (Or.inr (.here hret))
    · have hsame : (settle (m.step env position i)).returned = m.returned := step_returned hret
      rw [returns_cons_iff position hret, ← hsame]
      cases hstep : m.step env position i with
      | error f =>
        rw [runFrom, hstep]
        refine (or_iff_left ?_).symm
        rintro ⟨m₁, h, -⟩
        cases h
      | ok m₁ =>
        rw [runFrom_cons hstep]
        by_cases hr : m₁.returned = none
        · rw [if_pos hr, ih]
          simp [settle, hr]
        · rw [if_neg hr]
          refine (or_iff_left ?_).symm
          rintro ⟨m₂, h, hr₂, -⟩
          cases h
          exact hr hr₂

/-- some command of the history has evaluated a return -/
def Returned (env : Surroundings) (m : Machine) (commands : List Command) : Prop :=
  ∃ before command later, commands = before ++ command :: later ∧ Returns env command.code (after env m before)

theorem perform_returned_iff {command : Command} : (settle (command.perform env m)).returned ≠ none ↔
    m.returned ≠ none ∨ Returns env command.code m := by
  cases command with
  | setLocal slot value =>
    have hsame : (settle ((Command.setLocal slot value).perform env m)).returned = m.returned := by
      simp only [Command.perform, setLocal]
      split_ifs <;> rfl
    rw [hsame]
    refine (or_iff_left ?_).symm
    rintro ⟨⟩
  | step position i =>
    -- a single instruction is a run of it
    have hrun : m.step env position i = runFrom env position [i] m := by
      cases hstep : m.step env position i with
      | ok m₁ =>
        rw [runFrom_cons hstep]
        split_ifs <;> rfl
      | error f =>
        rw [runFrom, hstep]
        rfl
    rw [Command.perform, hrun]
    exact runFrom_returned_iff
  | run b => exact runFrom_returned_iff
  | runBlock block => exact runFrom_returned_iff

theorem returned_cons_iff {command : Command} {commands : List Command} : Returned env m (command :: commands) ↔
    Returns env command.code m ∨ Returned env (settle (command.perform env m)) commands := by
  constructor
  · rintro ⟨_ | ⟨_, before⟩, command', later, heq, h⟩
    · cases heq
      exact Or.inl h
    · cases heq
      exact Or.inr ⟨before, command', later, rfl, h⟩
  · rintro (h | ⟨before, command', later, rfl, h⟩)
    · exact ⟨[], command, commands, rfl, h⟩
    · exact ⟨command :: before, command', later, rfl, h⟩

/-- **After a history the machine has returned** if and only if it had before or some command has evaluated a return. -/
theorem after_returned_iff {commands : List Command} : (after env m commands).returned ≠ none ↔
    m.returned ≠ none ∨ Returned env m commands := by
  induction commands generalizing m with
  | nil =>
    refine (or_iff_left ?_).symm
    rintro ⟨before, command, later, heq, -⟩
    simp at heq
  | cons command commands ih =>
    rw [returned_cons_iff, ← or_assoc, ← perform_returned_iff]
    exact ih

/-! ## What a run carries out -/

/-- one instruction after the other, whatever the machine has returned -/
def stepThrough (env : Surroundings) (position : Nat) : List Instruction → Machine → Except (Failure Machine) Machine
  | [], m => .ok m
  | i :: rest, m => m.step env position i >>= stepThrough env (position + 1) rest

/-- the instructions up to the first return, or all of them -/
def upToReturn : List Instruction → List Instruction
  | [] => []
  | i :: rest => if i.opcode = .ret then [i] else i :: upToReturn rest

/-- **A machine that has not returned carries out a block up to its first return.** -/
theorem runFrom_eq_stepThrough (hm : m.returned = none) :
    runFrom env position block m = stepThrough env position (upToReturn block) m := by
  induction block generalizing m position with
  | nil => rfl
  | cons i rest ih =>
    rw [upToReturn]
    split_ifs with hret
    · rw [runFrom_cons (step_ret hret), stepThrough, step_ret hret]
      rfl
    · have hsame : (settle (m.step env position i)).returned = m.returned := step_returned hret
      rw [stepThrough]
      cases hstep : m.step env position i with
      | error f =>
        rw [runFrom, hstep]
        rfl
      | ok m₁ =>
        rw [hstep, settle, hm] at hsame
        rw [runFrom_cons hstep, if_pos hsame]
        exact ih hsame

/-- **A machine that has returned carries out one instruction of a block.** -/
theorem runFrom_of_returned (hm : m.returned ≠ none) :
    runFrom env position block m = stepThrough env position (block.take 1) m := by
  cases block with
  | nil => rfl
  | cons i rest =>
    rw [List.take_succ_cons, List.take_zero, stepThrough]
    cases hstep : m.step env position i with
    | error f =>
      rw [runFrom, hstep]
      rfl
    | ok m₁ =>
      have hreturned : (settle ((Command.step position i).perform env m)).returned ≠ none :=
        perform_returned_iff.2 (Or.inl hm)
      rw [Command.perform, hstep, settle] at hreturned
      rw [runFrom_cons hstep, if_neg hreturned]
      rfl

/-- **What a run carries out, whatever came before.** For every history of a machine and every block or body that is run
after it: if no command of the history has evaluated a return, the run does what the instructions up to the first
return, or all of them, do one after the other, also where one fails. Otherwise it does what the first one does alone. -/
theorem run_after_history (env : Surroundings) (slots : Nat) (args : Array Value) (history : List Command)
    (command : Command) (hrun : command.isRun = true) :
    let m := after env (.new slots args) history
    (¬ Returned env (.new slots args) history →
      command.perform env m = stepThrough env 0 (upToReturn command.code) m) ∧
    (Returned env (.new slots args) history →
      command.perform env m = stepThrough env 0 (command.code.take 1) m) := by
  intro m
  have hreturned : m.returned ≠ none ↔ Returned env (.new slots args) history :=
    after_returned_iff.trans (or_iff_right (by simp [new]))
  have hperform : command.perform env m = runFrom env 0 command.code m := by
    cases command with
    | setLocal | step => cases hrun
    | run | runBlock => rfl
  rw [hperform, ← hreturned, not_not]
  exact ⟨runFrom_eq_stepThrough, runFrom_of_returned⟩

/-- a machine of its own, without members and hooks -/
def alone : Surroundings := ⟨fun _ => none, []⟩

/-- a block that puts a reference to nothing onto the stack, twice -/
def twoNulls : List Instruction := [{ opcode := .ldnull }, { opcode := .ldnull }]

/-- a run that follows one without a return, and a run that follows one with a return -/
theorem run_after_history_twoNulls :
    let ret : Instruction := { opcode := .ret }
    (Command.runBlock (twoNulls ++ [ret])).isRun = true ∧
      ¬ Returned alone (.new 0 #[]) [.runBlock twoNulls] ∧
      (Command.runBlock (twoNulls ++ [ret])).perform alone (after alone (.new 0 #[]) [.runBlock twoNulls]) =
        .ok { locals := #[], stack := [.null, .null, .null], returned := some (some .null) } ∧
      Returned alone (.new 0 #[]) [.runBlock [ret]] ∧
      (Command.runBlock twoNulls).perform alone (after alone (.new 0 #[]) [.runBlock [ret]]) =
        .ok { locals := #[], stack := [.null], returned := some none } := by
  intro ret
  have hnone : ¬ Returned alone (.new 0 #[]) [.runBlock twoNulls] := fun h => after_returned_iff.2 (Or.inr h) rfl
  have hsome : Returned alone (.new 0 #[]) [.runBlock [ret]] := ⟨[], .runBlock [ret], [], rfl, .here rfl⟩
  refine ⟨rfl, hnone, ?_, hsome, ?_⟩
  · exact ((run_after_history alone 0 #[] [.runBlock twoNulls] (.runBlock (twoNulls ++ [ret])) rfl).1 hnone).trans rfl
  · exact ((run_after_history alone 0 #[] [.runBlock [ret]] (.runBlock twoNulls) rfl).2 hsome).trans rfl

/-- A run that follows a return is cut short: it succeeds with one of the two references, where the instructions one after
the other leave both. -/
theorem run_after_return_cut :
    let m := after alone (.new 0 #[]) [.runBlock [{ opcode := .ret }]]
    (Command.runBlock twoNulls).perform alone m = .ok { locals := #[], stack := [.null], returned := some none } ∧
      upToReturn twoNulls = twoNulls ∧
      stepThrough alone 0 twoNulls m = .ok { locals := #[], stack := [.null, .null], returned := some none } :=
  ⟨rfl, rfl, rfl⟩

end CilGraft.Machine
